import VehicleCanCore.Automata.Machine
import VehicleCanCore.Automata.CircularWindow
import VehicleCanCore.Core.Frame

/-!
# The single-producer single-consumer frame ring, one atomic operation at a time

Every program point of `push`, `pop`, `snapshot` and `clear` names the next
atomic load, store, read-modify-write or slot access of the call, together with
the locals that are live there. The indices are `w`-bit words that wrap.
A weak compare-exchange may fail spuriously; the schedule decides.
-/

namespace VehicleCanCore
namespace CanBus

open VehicleCanCore.Core Automata CircularWindow

/-- The independent 64-bit statistics, in the order in which `snapshot` visits them. -/
inductive Counter
  | framesReceived
  | framesQueued
  | framesDelivered
  | framesDropped
  | queueOverflows
  | busErrors
  | driverRxMissed
  | controllerResets
  | busOffEvents
  deriving DecidableEq, Repr

def Counter.all : List Counter :=
  [framesReceived, framesQueued, framesDelivered, framesDropped, queueOverflows, busErrors,
    driverRxMissed, controllerResets, busOffEvents]

structure Statistics where
  counts : Counter → BitVec 64 := fun _ => 0
  queueDepth : BitVec 32 := 0
  queueHighWatermark : BitVec 32 := 0
  queueCapacity : BitVec 32 := 64

def Statistics.record (result : Statistics) (k : Counter) (value : BitVec 64) : Statistics :=
  { result with counts := Function.update result.counts k value }

inductive StatisticsOperation
  | snapshot
  | snapshotAndReset
  deriving DecidableEq, Repr

namespace FrameRing

/-- A template argument `Capacity` of type `size_t` that passes the `static_assert`. -/
structure Capacity (w : ℕ) where
  size : ℕ
  pos : 0 < size
  fits : size < 2 ^ w

instance {w : ℕ} (C : Capacity w) : NeZero C.size := ⟨C.pos.ne'⟩

variable {w : ℕ} {C : Capacity w}

structure Memory (C : Capacity w) where
  frames : Fin C.size → RawCanFrame := fun _ => {}
  head : BitVec w := 0
  tail : BitVec w := 0
  counters : Counter → BitVec 64 := fun _ => 0
  queueHighWatermark : BitVec 32 := 0

namespace Memory

def fetchAdd (m : Memory C) (k : Counter) (n : BitVec 64) : Memory C :=
  { m with counters := Function.update m.counters k (m.counters k + n) }

def exchange (m : Memory C) (k : Counter) (n : BitVec 64) : Memory C :=
  { m with counters := Function.update m.counters k n }

def storeSlot (m : Memory C) (i : BitVec w) (frame : RawCanFrame) : Memory C :=
  { m with frames := Function.update m.frames (slot C.size i) frame }

/-- The effect of `clear()` when nothing else runs: pending frames are dropped
by moving the tail, every counter and the watermark restart from zero. -/
def clear (m : Memory C) : Memory C :=
  { m with tail := m.head, counters := fun _ => 0, queueHighWatermark := 0 }

/-- The published frames that no `pop` has released yet, oldest first. -/
def contents (m : Memory C) : List RawCanFrame :=
  window m.frames m.tail (m.head - m.tail).toNat

end Memory

inductive Event
  | counted (k : Counter) (n : BitVec 64)
  | reset (k : Counter) (value : BitVec 64)
  | tailLoaded
  | published (frame : RawCanFrame)
  | pushReturned (accepted : Bool)
  | delivered (frame : RawCanFrame)
  | popReturned (frame : Option RawCanFrame)
  | snapshotReturned (operation : StatisticsOperation) (result : Statistics)

/-! ## push -/

inductive PushPc (w : ℕ)
  | countReceived (frame : RawCanFrame)
  | loadHead (frame : RawCanFrame)
  | loadTail (frame : RawCanFrame) (head : BitVec w)
  | countDropped
  | countOverflow
  | writeSlot (frame : RawCanFrame) (head tail : BitVec w)
  | storeHead (frame : RawCanFrame) (head tail : BitVec w)
  | loadWatermark (depth : BitVec 32)
  | raiseWatermark (depth watermark : BitVec 32)
  | countQueued
  | done (accepted : Bool)
  deriving DecidableEq

/-- The loop condition of `update_watermark`, evaluated on the value last seen. -/
def PushPc.afterWatermark (depth watermark : BitVec 32) : PushPc w :=
  if watermark < depth then .raiseWatermark depth watermark else .countQueued

def pushStep (m : Memory C) (spurious : Bool) :
    PushPc w → Option (Memory C × PushPc w × List Event)
  | .countReceived frame =>
    some (m.fetchAdd .framesReceived 1, .loadHead frame, [.counted .framesReceived 1])
  | .loadHead frame => some (m, .loadTail frame m.head, [])
  | .loadTail frame head =>
    if C.size ≤ (head - m.tail).toNat then some (m, .countDropped, [.tailLoaded])
    else some (m, .writeSlot frame head m.tail, [.tailLoaded])
  | .countDropped =>
    some (m.fetchAdd .framesDropped 1, .countOverflow, [.counted .framesDropped 1])
  | .countOverflow =>
    some (m.fetchAdd .queueOverflows 1, .done false, [.counted .queueOverflows 1])
  | .writeSlot frame head tail => some (m.storeSlot head frame, .storeHead frame head tail, [])
  | .storeHead frame head tail =>
    some ({ m with head := head + 1#w }, .loadWatermark ((head + 1#w - tail).setWidth 32),
      [.published frame])
  | .loadWatermark depth => some (m, .afterWatermark depth m.queueHighWatermark, [])
  | .raiseWatermark depth watermark =>
    if spurious = false ∧ m.queueHighWatermark = watermark then
      some ({ m with queueHighWatermark := depth }, .countQueued, [])
    else some (m, .afterWatermark depth m.queueHighWatermark, [])
  | .countQueued =>
    some (m.fetchAdd .framesQueued 1, .done true, [.counted .framesQueued 1])
  | .done _ => none

/-! ## pop -/

inductive PopPc (w : ℕ)
  | loadTail
  | loadHead (tail : BitVec w)
  | readSlot (tail : BitVec w)
  | storeTail (tail : BitVec w) (frame : RawCanFrame)
  | countDelivered (frame : RawCanFrame)
  | done (frame : Option RawCanFrame)
  deriving DecidableEq

def popStep (m : Memory C) : PopPc w → Option (Memory C × PopPc w × List Event)
  | .loadTail => some (m, .loadHead m.tail, [])
  | .loadHead tail =>
    if tail = m.head then some (m, .done none, []) else some (m, .readSlot tail, [])
  | .readSlot tail => some (m, .storeTail tail (m.frames (slot C.size tail)), [])
  | .storeTail tail frame =>
    some ({ m with tail := tail + 1#w }, .countDelivered frame, [.delivered frame])
  | .countDelivered frame =>
    some (m.fetchAdd .framesDelivered 1, .done (some frame), [.counted .framesDelivered 1])
  | .done _ => none

/-! ## snapshot -/

/-- `coherent_depth` reads the tail on both sides of the head. -/
inductive DepthPc (w : ℕ)
  | tailBefore
  | head (tailBefore : BitVec w)
  | tailAfter (tailBefore head : BitVec w)
  deriving DecidableEq

/-- One load of `coherent_depth`: the next program point, or the value returned. -/
def depthStep (m : Memory C) : DepthPc w → DepthPc w ⊕ BitVec 32
  | .tailBefore => .inl (.head m.tail)
  | .head tailBefore => .inl (.tailAfter tailBefore m.head)
  | .tailAfter tailBefore head =>
    if tailBefore ≠ m.tail then .inl .tailBefore
    else if (head - m.tail).toNat ≤ C.size then .inr ((head - m.tail).setWidth 32)
    else .inl .tailBefore

/-- In `counters operation result remaining` the next access is to the first
remaining counter; with none remaining it is the access to the watermark. -/
inductive SnapshotPc (w : ℕ)
  | depth (operation : StatisticsOperation) (pc : DepthPc w)
  | counters (operation : StatisticsOperation) (result : Statistics) (remaining : List Counter)
  | reconcileDepth (result : Statistics) (pc : DepthPc w)
  | loadWatermark (result : Statistics) (depth : BitVec 32)
  | raiseWatermark (result : Statistics) (depth watermark : BitVec 32)
  | done (operation : StatisticsOperation) (result : Statistics)

/-- The loop condition of `ensure_watermark_at_least`. -/
def SnapshotPc.afterWatermark (result : Statistics) (depth watermark : BitVec 32) :
    SnapshotPc w :=
  if watermark < depth then .raiseWatermark result depth watermark
  else .done .snapshotAndReset result

def snapshotStep (m : Memory C) (spurious : Bool) :
    SnapshotPc w → Option (Memory C × SnapshotPc w × List Event)
  | .depth operation pc =>
    match depthStep m pc with
    | .inl pc => some (m, .depth operation pc, [])
    | .inr depth =>
      some (m, .counters operation
        { queueDepth := depth, queueCapacity := BitVec.ofNat 32 C.size } Counter.all, [])
  | .counters .snapshotAndReset result (k :: ks) =>
    some (m.exchange k 0, .counters .snapshotAndReset (result.record k (m.counters k)) ks,
      [.reset k (m.counters k)])
  | .counters .snapshot result (k :: ks) =>
    some (m, .counters .snapshot (result.record k (m.counters k)) ks, [])
  | .counters .snapshotAndReset result [] =>
    some ({ m with queueHighWatermark := result.queueDepth },
      .reconcileDepth { result with queueHighWatermark := m.queueHighWatermark } .tailBefore, [])
  | .counters .snapshot result [] =>
    some (m, .done .snapshot { result with queueHighWatermark := m.queueHighWatermark }, [])
  | .reconcileDepth result pc =>
    match depthStep m pc with
    | .inl pc => some (m, .reconcileDepth result pc, [])
    | .inr depth => some (m, .loadWatermark result depth, [])
  | .loadWatermark result depth =>
    some (m, .afterWatermark result depth m.queueHighWatermark, [])
  | .raiseWatermark result depth watermark =>
    if spurious = false ∧ m.queueHighWatermark = watermark then
      some ({ m with queueHighWatermark := depth }, .done .snapshotAndReset result, [])
    else some (m, .afterWatermark result depth m.queueHighWatermark, [])
  | .done _ _ => none

/-! ## clear -/

inductive ClearPc (w : ℕ)
  | loadHead
  | storeTail (head : BitVec w)
  | snapshot (pc : SnapshotPc w)
  | storeWatermark
  | done

def clearStep (m : Memory C) (spurious : Bool) :
    ClearPc w → Option (Memory C × ClearPc w × List Event)
  | .loadHead => some (m, .storeTail m.head, [])
  | .storeTail head =>
    some ({ m with tail := head }, .snapshot (.depth .snapshotAndReset .tailBefore), [])
  | .snapshot (.done _ _) => some (m, .storeWatermark, [])
  | .snapshot pc =>
    (snapshotStep m spurious pc).map fun (m, pc, es) => (m, .snapshot pc, es)
  | .storeWatermark => some ({ m with queueHighWatermark := 0 }, .done, [])
  | .done => none

/-! ## The ring with its callers -/

/-- The `record_*` members; `push` and `pop` maintain the other counters. -/
inductive Recorded
  | busError
  | driverRxMissed
  | controllerReset
  | busOff
  deriving DecidableEq, Repr

def Recorded.counter : Recorded → Counter
  | busError => .busErrors
  | driverRxMissed => .driverRxMissed
  | controllerReset => .controllerResets
  | busOff => .busOffEvents

/-- One producer, one consumer and any number of statistics observers. -/
structure State (C : Capacity w) where
  memory : Memory C
  producer : Option (PushPc w) := none
  consumer : Option (PopPc w) := none
  observers : ℕ → Option (SnapshotPc w) := fun _ => none

def State.setObserver (s : State C) (i : ℕ) (pc : Option (SnapshotPc w)) : State C :=
  { s with observers := Function.update s.observers i pc }

@[simp] theorem setObserver_memory (s : State C) (i : ℕ) (pc : Option (SnapshotPc w)) :
    (s.setObserver i pc).memory = s.memory := rfl

@[simp] theorem setObserver_producer (s : State C) (i : ℕ) (pc : Option (SnapshotPc w)) :
    (s.setObserver i pc).producer = s.producer := rfl

@[simp] theorem setObserver_consumer (s : State C) (i : ℕ) (pc : Option (SnapshotPc w)) :
    (s.setObserver i pc).consumer = s.consumer := rfl

inductive Action
  | beginPush (frame : RawCanFrame)
  | producer (spurious : Bool)
  | beginPop
  | consumer
  | record (what : Recorded) (count : BitVec 64)
  | beginSnapshot (observer : ℕ) (operation : StatisticsOperation)
  | observer (observer : ℕ) (spurious : Bool)

def step (s : State C) : Action → Option (State C × List Event)
  | .beginPush frame =>
    match s.producer with
    | none => some ({ s with producer := some (.countReceived frame) }, [])
    | some _ => none
  | .producer spurious =>
    match s.producer with
    | none => none
    | some (.done accepted) => some ({ s with producer := none }, [.pushReturned accepted])
    | some pc =>
      (pushStep s.memory spurious pc).map fun (m, pc, es) =>
        ({ s with memory := m, producer := some pc }, es)
  | .beginPop =>
    match s.consumer with
    | none => some ({ s with consumer := some .loadTail }, [])
    | some _ => none
  | .consumer =>
    match s.consumer with
    | none => none
    | some (.done frame) => some ({ s with consumer := none }, [.popReturned frame])
    | some pc =>
      (popStep s.memory pc).map fun (m, pc, es) =>
        ({ s with memory := m, consumer := some pc }, es)
  | .record what count =>
    some ({ s with memory := s.memory.fetchAdd what.counter count }, [.counted what.counter count])
  | .beginSnapshot i operation =>
    match s.observers i with
    | none => some (s.setObserver i (some (.depth operation .tailBefore)), [])
    | some _ => none
  | .observer i spurious =>
    match s.observers i with
    | none => none
    | some (.done operation result) =>
      some (s.setObserver i none, [.snapshotReturned operation result])
    | some pc =>
      (snapshotStep s.memory spurious pc).map fun (m, pc, es) =>
        ({ s with memory := m }.setObserver i (some pc), es)

inductive Stepped (s : State C) : State C → List Event → Prop
  | beginPush {frame : RawCanFrame} (idle : s.producer = none) :
    Stepped s { s with producer := some (.countReceived frame) } []
  | push {spurious : Bool} {pc pc' : PushPc w} {m : Memory C} {es : List Event}
    (active : s.producer = some pc) (hstep : pushStep s.memory spurious pc = some (m, pc', es)) :
    Stepped s { s with memory := m, producer := some pc' } es
  | returnPush {accepted : Bool} (active : s.producer = some (.done accepted)) :
    Stepped s { s with producer := none } [.pushReturned accepted]
  | beginPop (idle : s.consumer = none) : Stepped s { s with consumer := some .loadTail } []
  | pop {pc pc' : PopPc w} {m : Memory C} {es : List Event}
    (active : s.consumer = some pc) (hstep : popStep s.memory pc = some (m, pc', es)) :
    Stepped s { s with memory := m, consumer := some pc' } es
  | returnPop {frame : Option RawCanFrame} (active : s.consumer = some (.done frame)) :
    Stepped s { s with consumer := none } [.popReturned frame]
  | record {what : Recorded} {count : BitVec 64} :
    Stepped s { s with memory := s.memory.fetchAdd what.counter count }
      [.counted what.counter count]
  | beginSnapshot {i : ℕ} {operation : StatisticsOperation} (idle : s.observers i = none) :
    Stepped s (s.setObserver i (some (.depth operation .tailBefore))) []
  | snapshot {i : ℕ} {spurious : Bool} {pc pc' : SnapshotPc w} {m : Memory C} {es : List Event}
    (active : s.observers i = some pc)
    (hstep : snapshotStep s.memory spurious pc = some (m, pc', es)) :
    Stepped s ({ s with memory := m }.setObserver i (some pc')) es
  | returnSnapshot {i : ℕ} {operation : StatisticsOperation} {result : Statistics}
    (active : s.observers i = some (.done operation result)) :
    Stepped s (s.setObserver i none) [.snapshotReturned operation result]

theorem step_cases {s t : State C} {a : Action} {es : List Event}
    (h : step s a = some (t, es)) : Stepped s t es := by
  cases a with
  | beginPush frame =>
    simp only [step] at h
    split at h <;> cases h
    exact .beginPush ‹_›
  | producer spurious =>
    simp only [step] at h
    split at h
    · cases h
    · cases h
      exact .returnPush ‹_›
    · simp only [Option.map_eq_some_iff, Prod.exists] at h
      obtain ⟨m, pc', es', hpush, heq⟩ := h
      cases heq
      exact .push ‹_› hpush
  | beginPop =>
    simp only [step] at h
    split at h <;> cases h
    exact .beginPop ‹_›
  | consumer =>
    simp only [step] at h
    split at h
    · cases h
    · cases h
      exact .returnPop ‹_›
    · simp only [Option.map_eq_some_iff, Prod.exists] at h
      obtain ⟨m, pc', es', hpop, heq⟩ := h
      cases heq
      exact .pop ‹_› hpop
  | record what count =>
    cases h
    exact .record
  | beginSnapshot i operation =>
    simp only [step] at h
    split at h <;> cases h
    exact .beginSnapshot ‹_›
  | observer i spurious =>
    simp only [step] at h
    split at h
    · cases h
    · cases h
      exact .returnSnapshot ‹_›
    · simp only [Option.map_eq_some_iff, Prod.exists] at h
      obtain ⟨m, pc', es', hsnap, heq⟩ := h
      cases heq
      exact .snapshot ‹_› hsnap

def machine (C : Capacity w) : Machine (State C) Action Event := ⟨step⟩

def cleared (m : Memory C) : State C := { memory := m.clear }

end FrameRing
end CanBus
end VehicleCanCore

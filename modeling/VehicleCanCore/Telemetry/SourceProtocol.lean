import VehicleCanCore.Automata.Acceptor
import VehicleCanCore.Telemetry.RuntimeParties

/-!
# Source ownership and the calls on the source

What a runtime may call on its source is an automaton over the lifecycle calls
and their returns. `OperationPc.Owned` says what the ownership fields and the
lifecycle are at each program point of the lifecycle operations.
-/

namespace VehicleCanCore
namespace Telemetry

open Automata

/-- The source from the runtime's side: not owned; asked whether it supports
retries; starting; owned after a successful or a partial start, with the number
of cleanup calls so far; inside such a call. -/
inductive Protocol
  | unowned
  | asked (retry : Bool)
  | starting (retry : Bool)
  | owned (retry partialStart : Bool) (calls : ℕ)
  | cleaning (retry partialStart : Bool) (calls : ℕ)
  deriving DecidableEq, Repr

namespace Protocol

/-- After a successful start one `stop()`, after an owning failure one more for
sources without retries; `retry_stop()` only for sources that opted in and after
an unresolved call. -/
def next : Protocol → SourceEvent → Option Protocol
  | unowned, .supportsStopRetry retry => some (asked retry)
  | asked retry, .start => some (starting retry)
  | starting retry, .startReturned result =>
    if result = .ok then some (owned retry false 0)
    else if result = .alreadyRunning ∨ result = .invalidConfiguration then some unowned
    else some (owned retry true 0)
  | owned retry partialStart calls, .cleanup .stop =>
    if calls = 0 ∨ (partialStart = true ∧ retry = false ∧ calls < 2) then
      some (cleaning retry partialStart (calls + 1))
    else none
  | owned retry partialStart calls, .cleanup .retryStop =>
    if retry = true ∧ 0 < calls then some (cleaning retry partialStart (calls + 1)) else none
  | cleaning retry partialStart calls, .cleanupReturned result =>
    if result = .ok ∨ (result = .notRunning ∧ (retry = true ∨ partialStart = true)) then
      some unowned
    else if retry = false ∧ partialStart = false then some unowned
    else some (owned retry partialStart calls)
  | _, _ => none

end Protocol

def sourceProtocol : Acceptor Protocol SourceEvent := ⟨Protocol.next⟩

structure Runtime.AtRest (platform : Platform) (r : Runtime) : Prop where
  started : r.books.started = true ↔ r.books.ownership ≠ .none
  stopped : r.lifecycle = .stopped →
    r.books.ownership = .none ∧ r.books.stopCalled = false ∧ r.Gone platform
  running : r.lifecycle = .running →
    r.books.ownership = .successfulStart ∧ r.books.stopCalled = false
  partialStart : r.books.ownership = .partialStart → r.lifecycle = .faulted ∧ r.Gone platform

def Event.sourceCall : Event → Option SourceEvent
  | .source e => some e
  | _ => none

/-! ## The ownership fields at each program point -/

namespace SourceBooks

structure Released (b : SourceBooks) : Prop where
  started : b.started = false
  ownership : b.ownership = .none
  stopCalled : b.stopCalled = false
  stopResult : b.stopResult = .ok

structure Started (b : SourceBooks) : Prop where
  started : b.started = true
  ownership : b.ownership = .successfulStart

/-- Only a source that opted into retries stays owned after its stop. -/
structure Successful (b : SourceBooks) : Prop extends b.Started where
  retained : b.stopCalled = true → b.stopRetrySupported = true

structure Partial (b : SourceBooks) : Prop where
  started : b.started = true
  ownership : b.ownership = .partialStart

/-- A partial start whose cleanup has not succeeded so far. -/
structure Retained (b : SourceBooks) : Prop extends b.Partial where
  unresolved : b.stopCalled = true → b.stopResult ≠ .ok
  untried : b.stopCalled = false → b.partialCleanupAttempts = 0

def Fresh (b : SourceBooks) : Prop := b.Successful ∧ b.stopCalled = false

/-- Not owned, or owned after a successful start. -/
def Whole (b : SourceBooks) : Prop := b.Released ∨ b.Successful

/-- Outside the calls of the source the fields are in one of three conditions. -/
def Consistent (b : SourceBooks) : Prop := b.Released ∨ b.Successful ∨ b.Retained

end SourceBooks

namespace Runtime

variable (platform : Platform) (r : Runtime)

def Free : Prop := r.books.Released ∧ r.Gone platform

/-- A stop is under way, although the worker may have faulted since. -/
def Halting : Prop := r.lifecycle = .stopping ∨ r.lifecycle = .faulted

/-- The lifecycle tells what is owned. -/
structure Resting : Prop where
  consistent : r.books.Consistent
  stopped : r.lifecycle = .stopped → r.Free platform
  running : r.lifecycle = .running → r.books.Fresh
  partialStart : r.books.ownership = .partialStart → r.lifecycle = .faulted ∧ r.Gone platform

end Runtime

/-- What an operation that ends as `e` says about the ownership fields. -/
structure Ending.Owned (platform : Platform) (r : Runtime) (e : Ending) : Prop where
  consistent : r.books.Consistent
  cleaned : e.cleaned = true → r.Free platform
  partialStart : r.books.ownership = .partialStart → r.Gone platform

def AfterDiagnostic.Owned (platform : Platform) (r : Runtime) : AfterDiagnostic → Prop
  | cleanUp => r.books.Retained ∧ r.Gone platform ∧ r.lifecycle = .stopping
  | requestStop => r.books.Whole ∧ r.Halting
  | resetCache _ | finish _ => r.Resting platform

/-- While a source that is not partially started is to be stopped. -/
def Cleaner.Stopping (platform : Platform) (r : Runtime) : Cleaner → Prop
  | start _ => r.Gone platform
  | stop => r.Halting
  | destroy _ => True

/-- Around the cleanup of a partial start. -/
def Cleaner.MayCleanUp (platform : Platform) (r : Runtime) : Cleaner → Prop
  | destroy _ => True
  | _ => r.Gone platform

def OperationPc.Owned (platform : Platform) (r : Runtime) : OperationPc → Prop
  | idle => r.Resting platform ∧ r.operationActive = false
  | resetCache | resetProcessor | askRetry | callStart | awaitStart =>
    r.Free platform ∧ r.lifecycle = .stopped
  | clearStopRequested | setWorkerActive =>
    r.books.Fresh ∧ r.Gone platform ∧ r.lifecycle = .stopped
  | refresh _ | resetDiagnostics | storeRunning =>
    r.books.Fresh ∧ r.Gone platform ∧ r.lifecycle = .stopped ∧ r.workerActive = true
  | createWorker => r.books.Fresh ∧ r.Gone platform ∧ r.lifecycle = .running ∧ r.workerActive = true
  | clearWorkerActive => r.books.Fresh ∧ r.Gone platform
  | storeStopping .cleanUp => r.books.Retained ∧ r.Gone platform
  | storeStopping .requestStop => r.books.Whole
  | storeStopping _ => False
  | awaitWorker result => r.books.Whole ∧ r.Halting ∧
      (result = .ok → r.books.Released)
  | requestStop (.destroy _) => r.books.Consistent
  | requestStop caller | attemptStop caller => r.books.Whole ∧ caller.Stopping platform r
  | awaitStop caller => r.books.Started ∧ r.books.stopCalled = true ∧ caller.Stopping platform r
  | cleanUp caller => r.books.Retained ∧ caller.MayCleanUp platform r
  | awaitCleanup caller =>
    r.books.Partial ∧ r.books.stopCalled = true ∧ caller.MayCleanUp platform r
  | storeFinal e => e.Owned platform r
  | beginDiagnostic _ _ next | refreshDiagnostic _ _ next _ | writeDiagnostic _ _ next =>
    next.Owned platform r
  | resetCacheAtEnd _ | finish _ => r.Resting platform
  | joinWorker | retryCleanup | destroyed => r.books.Consistent

/-! ## What the other threads preserve -/

/-- What everything but a lifecycle operation may do. -/
structure Runtime.Background (platform : Platform) (r r' : Runtime) : Prop where
  books : r'.books = r.books
  operationActive : r'.operationActive = r.operationActive
  lifecycle : r'.lifecycle = r.lifecycle ∨ r'.lifecycle = .faulted
  gone : r.Gone platform →
    r'.Gone platform ∧ r'.lifecycle = r.lifecycle ∧ r'.workerActive = r.workerActive

namespace Runtime.Background

variable {platform : Platform} {r r' : Runtime}

theorem of_eq (hbooks : r'.books = r.books) (hactive : r'.operationActive = r.operationActive)
    (hlifecycle : r'.lifecycle = r.lifecycle) (hworker : r'.worker = r.worker)
    (hworkerActive : r'.workerActive = r.workerActive) : r.Background platform r' :=
  ⟨hbooks, hactive, .inl hlifecycle, fun h => ⟨h.congr hworker, hlifecycle, hworkerActive⟩⟩

theorem setOperation (r : Runtime) (pc : OperationPc) :
    r.Background platform { r with operation := pc } := of_eq rfl rfl rfl rfl rfl

theorem resetCache (r : Runtime) :
    r.Background platform r.resetAcquisitionStatisticsCacheState := of_eq rfl rfl rfl rfl rfl

theorem writeLifecycleDiagnostic (r : Runtime) (lifecycle : LifecycleState)
    (transport : TransportHealth) :
    r.Background platform (r.writeLifecycleDiagnostic lifecycle transport) :=
  of_eq rfl rfl rfl rfl rfl

theorem refreshStep {statistics : AcquisitionStatistics} {pc : RefreshPc} {pc' : Option RefreshPc}
    (h : r.refreshStep statistics pc = some (r', pc')) : r.Background platform r' := by
  obtain ⟨_, _, _, _, rfl⟩ := refreshStep_eq h
  exact of_eq rfl rfl rfl rfl rfl

variable (hb : r.Background platform r')
include hb

theorem halting (h : r.Halting) : r'.Halting := by
  rcases hb.lifecycle with heq | heq
  · rwa [Halting, heq]
  · exact .inr heq

theorem consistent (h : r.books.Consistent) : r'.books.Consistent := hb.books ▸ h

theorem whole (h : r.books.Whole) : r'.books.Whole := hb.books ▸ h

theorem free (h : r.Free platform) : r'.Free platform :=
  ⟨hb.books ▸ h.1, (hb.gone h.2).1⟩

theorem resting (h : r.Resting platform) : r'.Resting platform where
  consistent := hb.books ▸ h.consistent
  stopped hstopped := by
    rcases hb.lifecycle with heq | heq
    · exact hb.free (h.stopped (heq ▸ hstopped))
    · simp [heq] at hstopped
  running hrunning := by
    rcases hb.lifecycle with heq | heq
    · exact hb.books ▸ h.running (heq ▸ hrunning)
    · simp [heq] at hrunning
  partialStart hpartialStart := by
    obtain ⟨hfaulted, hgone⟩ := h.partialStart (hb.books ▸ hpartialStart)
    obtain ⟨hgone', heq, -⟩ := hb.gone hgone
    exact ⟨heq.trans hfaulted, hgone'⟩

theorem afterDiagnostic {next : AfterDiagnostic} (h : next.Owned platform r) :
    next.Owned platform r' := by
  cases next with
  | cleanUp =>
    obtain ⟨hgone, heq, -⟩ := hb.gone h.2.1
    exact ⟨hb.books ▸ h.1, hgone, heq.trans h.2.2⟩
  | requestStop => exact ⟨hb.books ▸ h.1, hb.halting h.2⟩
  | resetCache | finish => exact hb.resting h

theorem stopping {caller : Cleaner} (h : caller.Stopping platform r) :
    caller.Stopping platform r' := by
  cases caller with
  | start => exact (hb.gone h).1
  | stop => exact hb.halting h
  | destroy => trivial

theorem mayCleanUp {caller : Cleaner} (h : caller.MayCleanUp platform r) :
    caller.MayCleanUp platform r' := by
  cases caller with
  | start | stop => exact (hb.gone h).1
  | destroy => trivial

theorem owned {pc : OperationPc} (h : pc.Owned platform r) : pc.Owned platform r' := by
  cases pc with
  | idle => exact ⟨hb.resting h.1, hb.operationActive.trans h.2⟩
  | resetCache | resetProcessor | askRetry | callStart | awaitStart =>
    exact ⟨hb.free h.1, (hb.gone h.1.2).2.1.trans h.2⟩
  | clearStopRequested | setWorkerActive =>
    obtain ⟨hgone, heq, -⟩ := hb.gone h.2.1
    exact ⟨hb.books ▸ h.1, hgone, heq.trans h.2.2⟩
  | refresh | resetDiagnostics | storeRunning | createWorker =>
    obtain ⟨hgone, heq, hactive⟩ := hb.gone h.2.1
    exact ⟨hb.books ▸ h.1, hgone, heq.trans h.2.2.1, hactive.trans h.2.2.2⟩
  | clearWorkerActive => exact ⟨hb.books ▸ h.1, (hb.gone h.2).1⟩
  | storeStopping next =>
    cases next with
    | cleanUp => exact ⟨hb.books ▸ h.1, (hb.gone h.2).1⟩
    | requestStop => exact hb.whole h
    | _ => exact h
  | awaitWorker => exact ⟨hb.books ▸ h.1, hb.halting h.2.1, hb.books ▸ h.2.2⟩
  | requestStop caller =>
    cases caller with
    | destroy => exact hb.consistent h
    | start | stop => exact ⟨hb.whole h.1, hb.stopping h.2⟩
  | attemptStop => exact ⟨hb.whole h.1, hb.stopping h.2⟩
  | awaitStop => exact ⟨hb.books ▸ h.1, hb.books ▸ h.2.1, hb.stopping h.2.2⟩
  | cleanUp => exact ⟨hb.books ▸ h.1, hb.mayCleanUp h.2⟩
  | awaitCleanup => exact ⟨hb.books ▸ h.1, hb.books ▸ h.2.1, hb.mayCleanUp h.2.2⟩
  | storeFinal e =>
    exact ⟨hb.books ▸ h.consistent, fun hc => hb.free (h.cleaned hc),
      fun hp => (hb.gone (h.partialStart (hb.books ▸ hp))).1⟩
  | beginDiagnostic | refreshDiagnostic | writeDiagnostic => exact hb.afterDiagnostic h
  | resetCacheAtEnd | finish => exact hb.resting h
  | joinWorker | retryCleanup | destroyed => exact hb.consistent h

end Runtime.Background

/-! ## The two cleanup helpers -/

namespace SourceBooks

variable {b b' : SourceBooks} {call : StopCall} {result cleanup : ResultCode}

theorem Released.beginSourceStop (h : b.Released) : b.beginSourceStop = .error .ok := by
  simp [SourceBooks.beginSourceStop, h.ownership, h.stopResult]

theorem Successful.beginSourceStop (h : b.Successful) :
    b.beginSourceStop = .ok ({ b with stopCalled := true },
      if b.stopCalled then .retryStop else .stop) := by
  obtain ⟨started, ownership, stopCalled, attempts, stopResult, retry⟩ := b
  obtain ⟨⟨hstarted, hownership⟩, hretained⟩ := h
  cases stopCalled <;> simp_all [SourceBooks.beginSourceStop]

/-- What a cleanup call leaves of a source that was started successfully. -/
inductive StopOutcome (b : SourceBooks) (result : ResultCode) : SourceBooks → ResultCode → Prop
  | released {b' : SourceBooks} (released : b'.Released)
    (resolved : result = .ok ∨ (result = .notRunning ∧ b.stopRetrySupported = true)) :
    StopOutcome b result b' .ok
  | handedOff {b' : SourceBooks} (released : b'.Released) (oneShot : b.stopRetrySupported = false)
    (unresolved : result ≠ .ok) : StopOutcome b result b' result
  | retained {b' : SourceBooks} (owned : b'.Successful) (called : b'.stopCalled = b.stopCalled)
    (retry : b.stopRetrySupported = true) (same : b'.stopRetrySupported = b.stopRetrySupported)
    (unresolved : result ≠ .ok ∧ result ≠ .notRunning) : StopOutcome b result b' result

theorem Started.endSourceStop (h : b.Started) (result : ResultCode) :
    StopOutcome b result (b.endSourceStop result).1 (b.endSourceStop result).2 := by
  unfold SourceBooks.endSourceStop
  simp only [Bool.or_eq_true, decide_eq_true_eq, Bool.and_eq_true, Bool.not_eq_true']
  split_ifs with hresolved hlegacy
  · exact .released ⟨rfl, rfl, rfl, rfl⟩ (hresolved.imp_right And.symm)
  · exact .handedOff ⟨rfl, rfl, rfl, rfl⟩ hlegacy fun hok => hresolved (.inl hok)
  · have hretry : b.stopRetrySupported = true := by simpa using hlegacy
    exact .retained ⟨⟨h.started, h.ownership⟩, fun _ => hretry⟩ rfl hretry rfl
      ⟨fun hok => hresolved (.inl hok), fun hno => hresolved (.inr ⟨hretry, hno⟩)⟩

/-- A partially started source is called, unless it had its two calls without success. -/
inductive CleanupBegun (b : SourceBooks) : Except ResultCode (SourceBooks × StopCall) → Prop
  | exhausted (unresolved : b.stopResult ≠ .ok) : CleanupBegun b (.error b.stopResult)
  | stop {b' : SourceBooks} (owned : b'.Partial) (called : b'.stopCalled = true)
    (attempts : b'.partialCleanupAttempts = b.partialCleanupAttempts + 1)
    (same : b'.stopRetrySupported = b.stopRetrySupported)
    (allowed : b.stopCalled = false ∨
      (b.stopRetrySupported = false ∧ b.partialCleanupAttempts < 2)) :
    CleanupBegun b (.ok (b', .stop))
  | retryStop {b' : SourceBooks} (owned : b'.Partial) (called : b'.stopCalled = true)
    (same : b'.stopRetrySupported = b.stopRetrySupported)
    (allowed : b.stopCalled = true ∧ b.stopRetrySupported = true) :
    CleanupBegun b (.ok (b', .retryStop))

theorem Retained.beginPartialCleanup (h : b.Retained) : CleanupBegun b b.beginPartialCleanup := by
  unfold SourceBooks.beginPartialCleanup
  simp only [ne_eq, h.ownership, h.started, not_true_eq_false, decide_false, Bool.not_true,
    Bool.or_self, Bool.false_eq_true, if_false, Bool.and_eq_true, decide_eq_true_eq,
    Bool.not_eq_true']
  split_ifs with hexhausted hretry
  · refine .exhausted (h.unresolved ?_)
    by_contra huntried
    have := h.untried (by simpa using huntried)
    simp [this] at hexhausted
  · exact .retryStop ⟨rfl, rfl⟩ hretry.2 rfl ⟨hretry.2, hretry.1⟩
  · refine .stop ⟨rfl, rfl⟩ rfl rfl rfl ?_
    cases hcalled : b.stopCalled with
    | false => exact .inl rfl
    | true =>
      have hlegacy : b.stopRetrySupported = false := by simpa [hcalled] using hretry
      exact .inr ⟨hlegacy, by simpa [hlegacy] using hexhausted⟩

inductive CleanupOutcome (b : SourceBooks) (result : ResultCode) :
    SourceBooks → ResultCode → Prop
  | released {b' : SourceBooks} (released : b'.Released)
    (resolved : result = .ok ∨ result = .notRunning) : CleanupOutcome b result b' .ok
  | retained {b' : SourceBooks} (owned : b'.Retained) (called : b'.stopCalled = true)
    (attempts : b'.partialCleanupAttempts = b.partialCleanupAttempts)
    (same : b'.stopRetrySupported = b.stopRetrySupported)
    (unresolved : result ≠ .ok ∧ result ≠ .notRunning) : CleanupOutcome b result b' result

theorem Partial.endPartialCleanup (h : b.Partial) (hcalled : b.stopCalled = true)
    (result : ResultCode) :
    CleanupOutcome b result (b.endPartialCleanup result).1 (b.endPartialCleanup result).2 := by
  unfold SourceBooks.endPartialCleanup
  simp only [Bool.or_eq_true, decide_eq_true_eq]
  split_ifs with hresolved
  · exact .released ⟨rfl, rfl, rfl, rfl⟩ hresolved
  · obtain ⟨hok, hno⟩ := not_or.mp hresolved
    exact .retained ⟨⟨h.started, h.ownership⟩, fun _ => hok, by simp [hcalled]⟩ hcalled rfl rfl
      ⟨hok, hno⟩

end SourceBooks

/-! ## One step of an operation -/

namespace SourceBooks

theorem Whole.consistent {b : SourceBooks} (h : b.Whole) : b.Consistent :=
  h.imp_right .inl

theorem Whole.not_partial {b : SourceBooks} (h : b.Whole) : b.ownership ≠ .partialStart := by
  rcases h with h | h <;> simp [h.ownership]

theorem Consistent.retained {b : SourceBooks} (h : b.Consistent)
    (hownership : b.ownership = .partialStart) : b.Retained := by
  rcases h with h | h | h
  · simp [h.ownership] at hownership
  · simp [h.ownership] at hownership
  · exact h

theorem Consistent.whole {b : SourceBooks} (h : b.Consistent)
    (hownership : b.ownership ≠ .partialStart) : b.Whole := by
  rcases h with h | h | h
  · exact .inl h
  · exact .inr h
  · exact absurd h.ownership hownership

end SourceBooks

theorem afterSourceStop_owned {platform : Platform} {r : Runtime} {cleanup : ResultCode}
    {caller : Cleaner} (hwhole : r.books.Whole) (hok : cleanup = .ok → r.books.Released)
    (hcaller : caller.Stopping platform r) :
    (afterSourceStop cleanup caller).Owned platform r := by
  cases caller with
  | start result =>
    refine ⟨hwhole.consistent, fun hcleaned => ⟨hok ?_, hcaller⟩,
      fun hpartialStart => absurd hpartialStart hwhole.not_partial⟩
    simpa [Ending.of] using hcleaned
  | stop =>
    simp only [afterSourceStop]
    split_ifs with hpending
    · have hnot : r.lifecycle ≠ .stopped ∧ r.lifecycle ≠ .running := by
        rcases hcaller with h | h <;> simp [h]
      exact ⟨hwhole.consistent, fun h => absurd h hnot.1, fun h => absurd h hnot.2,
        fun hpartialStart => absurd hpartialStart hwhole.not_partial⟩
    · exact ⟨hwhole, hcaller, hok⟩
  | destroy final => cases final <;> exact hwhole.consistent

theorem afterPartialCleanup_owned {platform : Platform} {r : Runtime} {cleanup : ResultCode}
    {caller : Cleaner} (hconsistent : r.books.Consistent) (hok : cleanup = .ok → r.books.Released)
    (hcaller : caller.MayCleanUp platform r) :
    (afterPartialCleanup cleanup caller).Owned platform r := by
  have hgone (hg : r.Gone platform) (e : Ending) (he : e.cleaned = decide (cleanup = .ok)) :
      e.Owned platform r :=
    ⟨hconsistent, fun hcleaned => ⟨hok (by simpa [he] using hcleaned), hg⟩, fun _ => hg⟩
  cases caller with
  | start | stop => exact hgone hcaller _ rfl
  | destroy final => cases final <;> exact hconsistent

theorem Cleaner.Stopping.setBooks {platform : Platform} {r : Runtime} {caller : Cleaner}
    (h : caller.Stopping platform r) (books : SourceBooks) :
    caller.Stopping platform { r with books := books } := by
  cases caller <;> exact h

theorem Cleaner.MayCleanUp.setBooks {platform : Platform} {r : Runtime} {caller : Cleaner}
    (h : caller.MayCleanUp platform r) (books : SourceBooks) :
    caller.MayCleanUp platform { r with books := books } := by
  cases caller <;> exact h

theorem destroyBy_owned {platform : Platform} {r : Runtime} {final : Bool} {otherwise : OperationPc}
    (h : r.books.Consistent) (hotherwise : otherwise.Owned platform r) :
    (destroyBy final otherwise r.books.ownership).Owned platform r := by
  cases hownership : r.books.ownership with
  | none => exact hotherwise
  | successfulStart => exact ⟨h.whole (by simp [hownership]), trivial⟩
  | partialStart => exact ⟨h.retained hownership, trivial⟩

theorem operationStep_owned {platform : Platform} {r r' : Runtime} {input : OperationInput}
    {pc pc' : OperationPc} {es : List Event} (hannounced : r.WorkerAnnounced)
    (h : pc.Owned platform r) (hstep : operationStep platform r input pc = some (r', pc', es)) :
    pc'.Owned platform { r' with operation := pc' } := by
  refine (Runtime.Background.setOperation r' pc').owned ?_
  cases pc with
  | idle | destroyed => cases hstep
  | resetCache =>
    cases hstep
    exact (Runtime.Background.resetCache r).owned h
  | resetProcessor | callStart =>
    cases hstep
    exact h
  | askRetry =>
    cases hstep
    obtain ⟨⟨hbooks, hgone⟩, hstopped⟩ := h
    exact ⟨⟨⟨hbooks.started, hbooks.ownership, hbooks.stopCalled, hbooks.stopResult⟩, hgone⟩,
      hstopped⟩
  | awaitStart =>
    obtain ⟨⟨hbooks, hgone⟩, hstopped⟩ := h
    simp only [operationStep] at hstep
    split_ifs at hstep with hok howning <;> cases hstep
    · exact ⟨⟨⟨⟨rfl, rfl⟩, nofun⟩, rfl⟩, hgone, hstopped⟩
    · exact ⟨⟨⟨rfl, rfl⟩, by simp [hbooks.stopCalled], fun _ => rfl⟩, hgone⟩
    all_goals
      have hreleased : ({ r.books with stopRetrySupported := false } : SourceBooks).Released :=
        ⟨hbooks.started, hbooks.ownership, hbooks.stopCalled, hbooks.stopResult⟩
      exact ⟨.inl hreleased, fun _ => ⟨hreleased, hgone⟩, by simp [hstopped],
        by simp [hbooks.ownership]⟩
  | clearStopRequested =>
    cases hstep
    exact h
  | setWorkerActive =>
    cases hstep
    exact ⟨h.1, h.2.1, h.2.2, rfl⟩
  | refresh pc =>
    simp only [operationStep, Option.map_eq_some_iff, Prod.exists] at hstep
    obtain ⟨r'', pc'', hrefresh, heq⟩ := hstep
    cases heq
    have hnext := (Runtime.Background.refreshStep hrefresh).owned h
    cases pc'' <;> exact hnext
  | resetDiagnostics =>
    cases hstep
    exact h
  | storeRunning =>
    cases hstep
    exact ⟨h.1, h.2.1, rfl, h.2.2.2⟩
  | createWorker =>
    obtain ⟨hfresh, hgone, hrunning, hactive⟩ := h
    simp only [operationStep] at hstep
    split_ifs at hstep <;> cases hstep
    · exact ⟨.inr (.inl hfresh.1), by simp [hrunning], fun _ => hfresh,
        by simp [hfresh.1.ownership]⟩
    · exact ⟨hfresh, hgone⟩
  | clearWorkerActive =>
    cases hstep
    exact ⟨.inr h.1.1, h.2⟩
  | storeStopping next =>
    cases hstep
    cases next with
    | cleanUp => exact ⟨h.1, h.2, rfl⟩
    | requestStop => exact ⟨h, .inl rfl⟩
    | _ => exact h.elim
  | awaitWorker result =>
    obtain ⟨hwhole, hhalting, hok⟩ := h
    simp only [operationStep] at hstep
    split_ifs at hstep with hgone hexpired <;> cases hstep
    · have hgone' := Runtime.gone_join hannounced hgone
      refine ⟨by simpa using hwhole.consistent, fun hcleaned => ⟨?_, hgone'⟩, fun _ => hgone'⟩
      simpa using hok (by simpa [Ending.of] using hcleaned)
    · have hnot : r.lifecycle ≠ .stopped ∧ r.lifecycle ≠ .running := by
        rcases hhalting with h | h <;> simp [h]
      exact ⟨hwhole.consistent, fun h => absurd h hnot.1, fun h => absurd h hnot.2,
        fun hpartialStart => absurd hpartialStart hwhole.not_partial⟩
  | requestStop caller =>
    cases hstep
    cases caller with
    | start | stop => exact h
    | destroy final =>
      exact destroyBy_owned (r := { r with stopRequested := true }) h h
  | attemptStop caller =>
    obtain ⟨hwhole, hcaller⟩ := h
    simp only [operationStep] at hstep
    rcases hwhole with hreleased | howned
    · rw [hreleased.beginSourceStop] at hstep
      cases hstep
      exact afterSourceStop_owned (.inl hreleased) (fun _ => hreleased) hcaller
    · rw [howned.beginSourceStop] at hstep
      cases hstep
      exact ⟨⟨howned.started, howned.ownership⟩, rfl, hcaller.setBooks _⟩
  | awaitStop caller =>
    obtain ⟨howned, hcalled, hcaller⟩ := h
    have houtcome := howned.endSourceStop input.result
    simp only [operationStep, Option.some.injEq, Prod.mk.injEq] at hstep
    obtain ⟨rfl, rfl, rfl⟩ := hstep
    generalize r.books.endSourceStop input.result = p at houtcome ⊢
    obtain ⟨books, cleanup⟩ := p
    have hcaller' := hcaller.setBooks books
    cases houtcome with
    | released released => exact afterSourceStop_owned (.inl released) (fun _ => released) hcaller'
    | handedOff released =>
      exact afterSourceStop_owned (.inl released) (fun _ => released) hcaller'
    | retained owned called retry same unresolved =>
      exact afterSourceStop_owned (.inr owned) (fun hok => absurd hok unresolved.1) hcaller'
  | cleanUp caller =>
    obtain ⟨hretained, hcaller⟩ := h
    have hbegun := hretained.beginPartialCleanup
    simp only [operationStep] at hstep
    generalize r.books.beginPartialCleanup = begun at hbegun hstep
    cases hbegun with
    | exhausted unresolved =>
      cases hstep
      exact afterPartialCleanup_owned (.inr (.inr hretained)) (fun hok => absurd hok unresolved)
        hcaller
    | stop owned called | retryStop owned called =>
      cases hstep
      exact ⟨owned, called, hcaller.setBooks _⟩
  | awaitCleanup caller =>
    obtain ⟨howned, hcalled, hcaller⟩ := h
    have houtcome := howned.endPartialCleanup hcalled input.result
    simp only [operationStep, Option.some.injEq, Prod.mk.injEq] at hstep
    obtain ⟨rfl, rfl, rfl⟩ := hstep
    generalize r.books.endPartialCleanup input.result = p at houtcome ⊢
    obtain ⟨books, cleanup⟩ := p
    have hcaller' := hcaller.setBooks books
    cases houtcome with
    | released released =>
      exact afterPartialCleanup_owned (.inl released) (fun _ => released) hcaller'
    | retained owned called attempts same unresolved =>
      exact afterPartialCleanup_owned (.inr (.inr owned)) (fun hok => absurd hok unresolved.1)
        hcaller'
  | storeFinal e =>
    cases hstep
    have hresting : ({ r with lifecycle := e.lifecycle } : Runtime).Resting platform := by
      refine ⟨h.consistent, fun hstopped => h.cleaned ?_, fun hrunning => ?_,
        fun hpartialStart => ?_⟩
      · cases hcleaned : e.cleaned <;> simp_all [Ending.lifecycle]
      · cases hcleaned : e.cleaned <;> simp_all [Ending.lifecycle]
      · have hgone := h.partialStart hpartialStart
        have hnot : e.cleaned = false := by
          by_contra hcleaned
          have := (h.cleaned (by simpa using hcleaned)).1.ownership
          simp [this] at hpartialStart
        exact ⟨by simp [Ending.lifecycle, hnot], hgone⟩
    have hnext : (if e.resetsCache then AfterDiagnostic.resetCache e.result
        else .finish e.result).Owned platform { r with lifecycle := e.lifecycle } := by
      split <;> exact hresting
    exact hnext
  | beginDiagnostic lifecycle transport next =>
    cases hstep
    exact h
  | refreshDiagnostic lifecycle transport next pc =>
    simp only [operationStep, Option.map_eq_some_iff, Prod.exists] at hstep
    obtain ⟨r'', pc'', hrefresh, heq⟩ := hstep
    cases heq
    have hnext := (Runtime.Background.refreshStep hrefresh).afterDiagnostic h
    cases pc'' <;> exact hnext
  | writeDiagnostic lifecycle transport next =>
    cases hstep
    have hnext :=
      (Runtime.Background.writeLifecycleDiagnostic r lifecycle transport).afterDiagnostic h
    cases next with
    | cleanUp => exact ⟨hnext.1, hnext.2.1⟩
    | requestStop => exact hnext
    | resetCache | finish => exact hnext
  | resetCacheAtEnd result =>
    cases hstep
    exact (Runtime.Background.resetCache r).resting h
  | finish result =>
    cases hstep
    have hresting : r.Resting platform := h
    exact ⟨⟨hresting.consistent, hresting.stopped, hresting.running, hresting.partialStart⟩, rfl⟩
  | joinWorker =>
    simp only [operationStep] at hstep
    split_ifs at hstep
    cases hstep
    have hconsistent : (r.join platform).books.Consistent := by
      rw [Runtime.join_books]
      exact h
    exact hconsistent
  | retryCleanup =>
    cases hstep
    split_ifs
    · exact destroyBy_owned h h
    · exact h

/-! ## The calls follow the protocol -/

/-- Where the protocol is while no call of the source is in progress. -/
def SourceBooks.Standing (b : SourceBooks) (k : Protocol) : Prop :=
  match b.ownership with
  | .none => k = .unowned
  | .successfulStart =>
    ∃ n, k = .owned b.stopRetrySupported false n ∧ (n = 0 ↔ b.stopCalled = false)
  | .partialStart =>
    ∃ n, k = .owned b.stopRetrySupported true n ∧ (n = 0 ↔ b.stopCalled = false) ∧
      (b.stopRetrySupported = false → n = b.partialCleanupAttempts.toNat)

def OperationPc.Follows (b : SourceBooks) (k : Protocol) : OperationPc → Prop
  | callStart => k = .asked b.stopRetrySupported
  | awaitStart => k = .starting b.stopRetrySupported
  | awaitStop _ => ∃ n, k = .cleaning b.stopRetrySupported false (n + 1)
  | awaitCleanup _ => ∃ n, k = .cleaning b.stopRetrySupported true (n + 1) ∧
      (b.stopRetrySupported = false → n + 1 = b.partialCleanupAttempts.toNat)
  | _ => b.Standing k

namespace SourceBooks

variable {b : SourceBooks} {k : Protocol}

theorem standing_released (h : b.Released) : b.Standing k ↔ k = .unowned := by
  simp [Standing, h.ownership]

theorem standing_started (h : b.Started) : b.Standing k ↔
    ∃ n, k = .owned b.stopRetrySupported false n ∧ (n = 0 ↔ b.stopCalled = false) := by
  simp [Standing, h.ownership]

theorem standing_partial (h : b.Partial) : b.Standing k ↔
    ∃ n, k = .owned b.stopRetrySupported true n ∧ (n = 0 ↔ b.stopCalled = false) ∧
      (b.stopRetrySupported = false → n = b.partialCleanupAttempts.toNat) := by
  simp [Standing, h.ownership]

end SourceBooks

theorem OperationPc.AfterCleanup.follows {b : SourceBooks} {k : Protocol} {pc : OperationPc}
    (h : pc.AfterCleanup) (hk : b.Standing k) : pc.Follows b k := by
  cases h <;> exact hk

theorem operationStep_follows {platform : Platform} {r r' : Runtime} {input : OperationInput}
    {pc pc' : OperationPc} {es : List Event} {k : Protocol} (h : pc.Owned platform r)
    (hk : pc.Follows r.books k) (hstep : operationStep platform r input pc = some (r', pc', es)) :
    ∃ k', sourceProtocol.accept k (es.filterMap Event.sourceCall) = some k' ∧
      pc'.Follows r'.books k' := by
  cases pc with
  | idle | destroyed => cases hstep
  | resetCache | resetProcessor | clearStopRequested | setWorkerActive | resetDiagnostics
  | storeRunning | clearWorkerActive | storeStopping | storeFinal | beginDiagnostic
  | resetCacheAtEnd | finish =>
    cases hstep
    exact ⟨k, rfl, hk⟩
  | askRetry =>
    cases hstep
    obtain rfl := (SourceBooks.standing_released h.1.1).mp hk
    exact ⟨_, rfl, rfl⟩
  | callStart =>
    cases hstep
    obtain rfl : k = .asked _ := hk
    exact ⟨_, rfl, rfl⟩
  | awaitStart =>
    obtain rfl : k = .starting _ := hk
    obtain ⟨⟨hbooks, hgone⟩, hstopped⟩ := h
    simp only [operationStep] at hstep
    split_ifs at hstep with hok howning <;> cases hstep
    · exact ⟨_, by simp [sourceProtocol, Protocol.next, Event.sourceCall, hok], 0, rfl, by simp⟩
    · have howns : ¬ (input.result = .alreadyRunning ∨ input.result = .invalidConfiguration) := by
        simpa [startFailureMayOwnSource] using howning
      refine ⟨.owned r.books.stopRetrySupported true 0,
        by simp [sourceProtocol, Protocol.next, Event.sourceCall, hok, howns], ?_⟩
      exact ⟨0, rfl, by simp [hbooks.stopCalled], fun _ => rfl⟩
    all_goals
      have hfree : input.result = .alreadyRunning ∨ input.result = .invalidConfiguration := by
        simpa [startFailureMayOwnSource, imp_iff_or_not, or_comm] using howning
      refine ⟨.unowned, by simp [sourceProtocol, Protocol.next, Event.sourceCall, hok, hfree], ?_⟩
      simp [OperationPc.Follows, SourceBooks.Standing, hbooks.ownership]
  | refresh pc | refreshDiagnostic _ _ _ pc =>
    simp only [operationStep, Option.map_eq_some_iff, Prod.exists] at hstep
    obtain ⟨r'', pc'', hrefresh, heq⟩ := hstep
    obtain ⟨_, _, _, _, rfl⟩ := Runtime.refreshStep_eq hrefresh
    cases heq
    cases pc'' <;> exact ⟨k, rfl, hk⟩
  | createWorker =>
    simp only [operationStep] at hstep
    split_ifs at hstep <;> cases hstep <;> exact ⟨k, rfl, hk⟩
  | awaitWorker result =>
    simp only [operationStep] at hstep
    split_ifs at hstep <;> cases hstep
    · refine ⟨k, rfl, ?_⟩
      rw [Runtime.join_books]
      exact hk
    · exact ⟨k, rfl, hk⟩
  | requestStop caller =>
    cases hstep
    refine ⟨k, rfl, ?_⟩
    cases caller with
    | start | stop => exact hk
    | destroy final => exact destroyBy_of (P := OperationPc.Follows _ k) hk hk hk
  | writeDiagnostic lifecycle transport next =>
    cases hstep
    cases next <;> exact ⟨k, rfl, hk⟩
  | joinWorker =>
    simp only [operationStep] at hstep
    split_ifs at hstep
    cases hstep
    refine ⟨k, rfl, ?_⟩
    rw [Runtime.join_books]
    exact hk
  | retryCleanup =>
    cases hstep
    refine ⟨k, rfl, ?_⟩
    split_ifs
    · exact destroyBy_of (P := OperationPc.Follows _ k) hk hk hk
    · exact hk
  | attemptStop caller =>
    obtain ⟨hwhole, -⟩ := h
    simp only [operationStep] at hstep
    rcases hwhole with hreleased | howned
    · rw [hreleased.beginSourceStop] at hstep
      cases hstep
      exact ⟨k, rfl, (afterSourceStop_afterCleanup _ _).follows hk⟩
    · rw [howned.beginSourceStop] at hstep
      cases hstep
      obtain ⟨n, rfl, hn⟩ := (SourceBooks.standing_started howned.toStarted).mp hk
      refine ⟨.cleaning r.books.stopRetrySupported false (n + 1), ?_, n, rfl⟩
      cases hcalled : r.books.stopCalled with
      | false => simp [sourceProtocol, Protocol.next, Event.sourceCall, hn.mpr hcalled]
      | true =>
        have hpos : 0 < n := Nat.pos_of_ne_zero fun h => by simp [hn.mp h] at hcalled
        simp [sourceProtocol, Protocol.next, Event.sourceCall, howned.retained hcalled, hpos]
  | awaitStop caller =>
    obtain ⟨howned, hcalled, -⟩ := h
    obtain ⟨n, rfl⟩ := hk
    have houtcome := howned.endSourceStop input.result
    simp only [operationStep, Option.some.injEq, Prod.mk.injEq] at hstep
    obtain ⟨rfl, rfl, rfl⟩ := hstep
    generalize r.books.endSourceStop input.result = p at houtcome ⊢
    obtain ⟨books, cleanup⟩ := p
    cases houtcome with
    | released released resolved =>
      have hunowned := (SourceBooks.standing_released released).mpr rfl
      refine ⟨.unowned, ?_, (afterSourceStop_afterCleanup _ _).follows hunowned⟩
      simp [sourceProtocol, Protocol.next, Event.sourceCall, resolved]
    | handedOff released oneShot unresolved =>
      have hunowned := (SourceBooks.standing_released released).mpr rfl
      refine ⟨.unowned, ?_, (afterSourceStop_afterCleanup _ _).follows hunowned⟩
      simp [sourceProtocol, Protocol.next, Event.sourceCall, oneShot, unresolved]
    | retained owned called retry same unresolved =>
      refine ⟨.owned r.books.stopRetrySupported false (n + 1), ?_,
        (afterSourceStop_afterCleanup _ _).follows ?_⟩
      · simp [sourceProtocol, Protocol.next, Event.sourceCall, retry, unresolved]
      · have hstill : books.stopCalled = true := called.trans hcalled
        exact (SourceBooks.standing_started owned.toStarted).mpr
          ⟨n + 1, by rw [same], by simp [hstill]⟩
  | cleanUp caller =>
    obtain ⟨hretained, -⟩ := h
    obtain ⟨n, rfl, hn, hcount⟩ := (SourceBooks.standing_partial hretained.toPartial).mp hk
    have hbegun := hretained.beginPartialCleanup
    simp only [operationStep] at hstep
    generalize r.books.beginPartialCleanup = begun at hbegun hstep
    cases hbegun with
    | exhausted unresolved =>
      cases hstep
      exact ⟨_, rfl, (afterPartialCleanup_afterCleanup _ _).follows hk⟩
    | @stop books owned called attempts same allowed =>
      cases hstep
      have hfew : r.books.partialCleanupAttempts < 2 := by
        rcases allowed with huntried | ⟨-, hfew⟩
        · simp [hretained.untried huntried]
        · exact hfew
      replace hfew := UInt8.lt_iff_toNat_lt.mp hfew
      refine ⟨.cleaning r.books.stopRetrySupported true (n + 1), ?_, n, by rw [same], ?_⟩
      · rcases allowed with huntried | ⟨hlegacy, -⟩
        · simp [sourceProtocol, Protocol.next, Event.sourceCall, hn.mpr huntried]
        · have hlt : n < 2 := hcount hlegacy ▸ hfew
          simp [sourceProtocol, Protocol.next, Event.sourceCall, hlegacy, hlt]
      · intro hlegacy
        rw [hcount (same ▸ hlegacy), attempts, UInt8.toNat_add]
        exact (Nat.mod_eq_of_lt (by simp at hfew ⊢; omega)).symm
    | @retryStop books owned called same allowed =>
      cases hstep
      refine ⟨.cleaning r.books.stopRetrySupported true (n + 1), ?_, n, by rw [same],
        by simp [same, allowed.2]⟩
      have hpos : 0 < n := Nat.pos_of_ne_zero fun h => by simp [hn.mp h] at allowed
      simp [sourceProtocol, Protocol.next, Event.sourceCall, allowed.2, hpos]
  | awaitCleanup caller =>
    obtain ⟨howned, hcalled, -⟩ := h
    obtain ⟨n, rfl, hcount⟩ := hk
    have houtcome := howned.endPartialCleanup hcalled input.result
    simp only [operationStep, Option.some.injEq, Prod.mk.injEq] at hstep
    obtain ⟨rfl, rfl, rfl⟩ := hstep
    generalize r.books.endPartialCleanup input.result = p at houtcome ⊢
    obtain ⟨books, cleanup⟩ := p
    cases houtcome with
    | released released resolved =>
      refine ⟨.unowned, ?_,
        (afterPartialCleanup_afterCleanup _ _).follows
          ((SourceBooks.standing_released released).mpr rfl)⟩
      simp [sourceProtocol, Protocol.next, Event.sourceCall, resolved]
    | retained owned called attempts same unresolved =>
      refine ⟨.owned r.books.stopRetrySupported true (n + 1), ?_,
        (afterPartialCleanup_afterCleanup _ _).follows ?_⟩
      · simp [sourceProtocol, Protocol.next, Event.sourceCall, unresolved]
      · have hstill : books.stopCalled = true := called
        exact (SourceBooks.standing_partial owned.toPartial).mpr
          ⟨n + 1, by rw [same], by simp [hstill], by rw [same, attempts]; exact hcount⟩

/-! ## All threads -/

/-- An operation keeps the others out, unless it is the destructor. -/
def Runtime.Guarded (r : Runtime) : Prop :=
  r.operation = .idle ∨ r.operation.destroying = true ∨ r.operationActive = true

theorem destroying_afterSourceStop {cleanup : ResultCode} {final : Bool} :
    (afterSourceStop cleanup (.destroy final)).destroying = true := by
  cases final <;> rfl

theorem destroying_afterPartialCleanup {cleanup : ResultCode} {final : Bool} :
    (afterPartialCleanup cleanup (.destroy final)).destroying = true := by
  cases final <;> rfl

theorem operationStep_destroying {platform : Platform} {r r' : Runtime} {input : OperationInput}
    {pc pc' : OperationPc} {es : List Event} (h : pc.destroying = true)
    (hstep : operationStep platform r input pc = some (r', pc', es)) : pc'.destroying = true := by
  cases pc with
  | requestStop caller =>
    cases caller with
    | destroy final =>
      cases hstep
      exact destroyBy_of (P := fun pc => pc.destroying = true) rfl rfl rfl
    | _ => cases h
  | attemptStop caller =>
    cases caller with
    | destroy final =>
      simp only [operationStep] at hstep
      split at hstep <;> cases hstep
      · exact destroying_afterSourceStop
      · rfl
    | _ => cases h
  | awaitStop caller =>
    cases caller with
    | destroy final =>
      cases hstep
      exact destroying_afterSourceStop
    | _ => cases h
  | cleanUp caller =>
    cases caller with
    | destroy final =>
      simp only [operationStep] at hstep
      split at hstep <;> cases hstep
      · exact destroying_afterPartialCleanup
      · rfl
    | _ => cases h
  | awaitCleanup caller =>
    cases caller with
    | destroy final =>
      cases hstep
      exact destroying_afterPartialCleanup
    | _ => cases h
  | joinWorker =>
    simp only [operationStep] at hstep
    split_ifs at hstep
    cases hstep
    rfl
  | retryCleanup =>
    cases hstep
    split_ifs
    · exact destroyBy_of (P := fun pc => pc.destroying = true) rfl rfl rfl
    · rfl
  | destroyed => cases hstep
  | _ => cases h

theorem operationStep_guarded {platform : Platform} {r r' : Runtime} {input : OperationInput}
    {pc pc' : OperationPc} {es : List Event} (h : pc.destroying = true ∨ r.operationActive = true)
    (hstep : operationStep platform r input pc = some (r', pc', es)) :
    pc' = .idle ∨ pc'.destroying = true ∨ r'.operationActive = true := by
  rcases h with hdestroying | hactive
  · exact .inr (.inl (operationStep_destroying hdestroying hstep))
  · cases pc with
    | idle | destroyed => cases hstep
    | finish result =>
      cases hstep
      exact .inl rfl
    | refresh pc | refreshDiagnostic _ _ _ pc =>
      simp only [operationStep, Option.map_eq_some_iff, Prod.exists] at hstep
      obtain ⟨r'', pc'', hrefresh, heq⟩ := hstep
      obtain ⟨_, _, _, _, rfl⟩ := Runtime.refreshStep_eq hrefresh
      cases heq
      exact .inr (.inr hactive)
    | awaitStart | createWorker =>
      simp only [operationStep] at hstep
      split_ifs at hstep <;> cases hstep <;> exact .inr (.inr hactive)
    | awaitWorker | joinWorker =>
      simp only [operationStep] at hstep
      split_ifs at hstep <;> cases hstep
      all_goals first
        | exact .inr (.inr hactive)
        | exact .inr (.inr (by cases platform <;> exact hactive))
    | attemptStop | cleanUp =>
      simp only [operationStep] at hstep
      split at hstep <;> cases hstep <;> exact .inr (.inr hactive)
    | _ =>
      cases hstep
      exact .inr (.inr hactive)

structure Runtime.Sound (platform : Platform) (r : Runtime) : Prop where
  owned : r.operation.Owned platform r
  announced : r.WorkerAnnounced
  guarded : r.Guarded

namespace Runtime

theorem WorkerAnnounced.congr {r r' : Runtime} (h : r.WorkerAnnounced)
    (hworker : r'.worker = r.worker) (hactive : r'.workerActive = r.workerActive) :
    r'.WorkerAnnounced := by
  intro pc hpc hfinished
  rw [hactive]
  exact h pc (hworker ▸ hpc) hfinished

theorem Gone.announced {platform : Platform} {r : Runtime} (h : r.Gone platform) :
    r.WorkerAnnounced := by
  intro pc hpc hfinished
  simp [Gone, hpc, hfinished] at h

theorem Gone.not_running {platform : Platform} {r : Runtime} {pc : WorkerPc}
    (hpc : r.worker = some pc) (hfinished : pc.isFinished = false) : ¬ r.Gone platform := by
  simp [Gone, hpc, hfinished]

theorem join_announced {platform : Platform} {r : Runtime} (h : r.WorkerAnnounced) :
    (r.join platform).WorkerAnnounced := by
  cases platform with
  | host =>
    have hgone : (r.join .host).Gone .host := gone_of_none rfl
    exact hgone.announced
  | esp => exact h

end Runtime

theorem operationStep_announced {platform : Platform} {r r' : Runtime} {input : OperationInput}
    {pc pc' : OperationPc} {es : List Event} (hannounced : r.WorkerAnnounced)
    (h : pc.Owned platform r) (hstep : operationStep platform r input pc = some (r', pc', es)) :
    r'.WorkerAnnounced := by
  cases pc with
  | idle | destroyed => cases hstep
  | setWorkerActive =>
    cases hstep
    exact fun _ _ _ => rfl
  | createWorker =>
    simp only [operationStep] at hstep
    split_ifs at hstep <;> cases hstep
    · exact fun _ _ _ => h.2.2.2
    · exact hannounced
  | clearWorkerActive =>
    cases hstep
    have hgone : ({ r with workerActive := false } : Runtime).Gone platform := h.2.congr rfl
    exact hgone.announced
  | refresh pc | refreshDiagnostic _ _ _ pc =>
    simp only [operationStep, Option.map_eq_some_iff, Prod.exists] at hstep
    obtain ⟨r'', pc'', hrefresh, heq⟩ := hstep
    obtain ⟨_, _, _, _, rfl⟩ := Runtime.refreshStep_eq hrefresh
    cases heq
    exact hannounced
  | awaitStart =>
    simp only [operationStep] at hstep
    split_ifs at hstep <;> cases hstep <;> exact hannounced
  | awaitWorker | joinWorker =>
    simp only [operationStep] at hstep
    split_ifs at hstep <;> cases hstep
    all_goals first
      | exact Runtime.join_announced hannounced
      | exact hannounced
  | attemptStop | cleanUp =>
    simp only [operationStep] at hstep
    split at hstep <;> cases hstep <;> exact hannounced
  | _ =>
    cases hstep
    exact hannounced

theorem WorkerPc.Effect.background {platform : Platform} {r r' : Runtime} {pc pc' : WorkerPc}
    {es : List Event} (h : WorkerPc.Effect r r' pc pc' es) (hpc : r.worker = some pc) :
    r.Background platform { r' with worker := some pc' } :=
  ⟨h.books, h.operationActive, h.lifecycle,
    fun hgone => absurd hgone (Runtime.Gone.not_running hpc h.running)⟩

theorem Runtime.Sound.idle {platform : Platform} {r : Runtime} (hr : r.Sound platform)
    (hfree : r.operationActive = false) (husable : r.operation.destroying = false) :
    r.operation = .idle := by
  rcases hr.guarded with h | h | h
  · exact h
  · simp [husable] at h
  · simp [hfree] at h

theorem Runtime.Sound.resting {platform : Platform} {r : Runtime} (hr : r.Sound platform)
    (hidle : r.operation = .idle) : r.Resting platform := by
  have howned := hr.owned
  rw [hidle] at howned
  exact howned.1

theorem Runtime.Sound.background {platform : Platform} {r t : Runtime} (hr : r.Sound platform)
    (hb : r.Background platform t) (hoperation : t.operation = r.operation)
    (hannounced : t.WorkerAnnounced) : t.Sound platform := by
  refine ⟨?_, hannounced, ?_⟩
  · rw [hoperation]
    exact hb.owned hr.owned
  · rw [Runtime.Guarded, hoperation, hb.operationActive]
    exact hr.guarded

theorem step_sound {platform : Platform} {r t : Runtime} {a : Action} {es : List Event}
    (hr : r.Sound platform) (h : step platform r a = some (t, es)) : t.Sound platform := by
  cases step_cases h with
  | configure =>
    exact hr.background (.of_eq rfl rfl rfl rfl rfl) rfl (hr.announced.congr rfl rfl)
  | refused => exact hr
  | start free stopped usable valid =>
    obtain ⟨hreleased, hgone⟩ := (hr.resting (hr.idle free usable)).stopped stopped
    exact ⟨⟨⟨hreleased, hgone⟩, stopped⟩, hr.announced, .inr (.inr rfl)⟩
  | stop free owned usable begins =>
    have hresting := hr.resting (hr.idle free usable)
    rcases begins with ⟨hpartialStart, rfl⟩ | ⟨hwhole, ⟨hstopping, rfl⟩ | ⟨-, rfl⟩⟩
    · exact ⟨⟨hresting.consistent.retained hpartialStart, (hresting.partialStart hpartialStart).2⟩,
        hr.announced, .inr (.inr rfl)⟩
    · exact ⟨⟨hresting.consistent.whole hwhole, .inl hstopping⟩, hr.announced, .inr (.inr rfl)⟩
    · exact ⟨hresting.consistent.whole hwhole, hr.announced, .inr (.inr rfl)⟩
  | destroy idle => exact ⟨(hr.resting idle).consistent, hr.announced, .inr (.inl rfl)⟩
  | operation hop =>
    have hguarded : r.operation.destroying = true ∨ r.operationActive = true := by
      rcases hr.guarded with hidle | h
      · simp [hidle, operationStep] at hop
      · exact h
    have hguarded' := operationStep_guarded hguarded hop
    have hannounced := operationStep_announced hr.announced hr.owned hop
    exact ⟨operationStep_owned hr.announced hr.owned hop, hannounced.congr rfl rfl, hguarded'⟩
  | worker active hworker =>
    have heffect := workerStep_effect hworker
    refine hr.background (heffect.background active) heffect.operation ?_
    intro pc hpc hfinished
    cases hpc
    rcases heffect.active with ⟨hactive, -⟩ | ⟨-, hdone⟩
    · exact hactive.trans (hr.announced _ active heffect.running)
    · simp [hfinished] at hdone
  | read usable =>
    obtain ⟨transport, heq⟩ := Runtime.updateSilenceDiagnostic_eq r _
    rw [heq]
    exact hr.background (.of_eq rfl rfl rfl rfl rfl) rfl (hr.announced.congr rfl rfl)

/-- The protocol is where the ownership fields say. -/
def Runtime.InProtocol (platform : Platform) (r : Runtime) (k : Protocol) : Prop :=
  r.Sound platform ∧ r.operation.Follows r.books k

theorem step_follows {platform : Platform} {r t : Runtime} {a : Action} {es : List Event}
    {k : Protocol} (hr : r.Sound platform) (hk : r.operation.Follows r.books k)
    (h : step platform r a = some (t, es)) :
    ∃ k', sourceProtocol.accept k (es.filterMap Event.sourceCall) = some k' ∧
      t.operation.Follows t.books k' := by
  cases step_cases h with
  | configure | refused => exact ⟨k, rfl, hk⟩
  | start free stopped usable valid =>
    rw [hr.idle free usable] at hk
    exact ⟨k, rfl, hk⟩
  | stop free owned usable begins =>
    rw [hr.idle free usable] at hk
    rcases begins with ⟨-, rfl⟩ | ⟨-, ⟨-, rfl⟩ | ⟨-, rfl⟩⟩ <;> exact ⟨k, rfl, hk⟩
  | destroy idle =>
    rw [idle] at hk
    exact ⟨k, rfl, hk⟩
  | operation hop =>
    obtain ⟨k', hk', hfollows⟩ := operationStep_follows hr.owned hk hop
    exact ⟨k', hk', hfollows⟩
  | worker active hworker =>
    have heffect := workerStep_effect hworker
    have hnone : es.filterMap Event.sourceCall = [] := by
      rw [List.filterMap_eq_nil_iff]
      intro e he
      have hworker := heffect.events e he
      cases e <;> simp_all [Event.ofWorker, Event.sourceCall]
    refine ⟨k, by rw [hnone]; rfl, ?_⟩
    simp only [heffect.operation, heffect.books]
    exact hk
  | read usable =>
    obtain ⟨transport, heq⟩ := Runtime.updateSilenceDiagnostic_eq r _
    rw [heq]
    exact ⟨k, rfl, hk⟩

theorem simulates_protocol (platform : Platform) :
    (machine platform).Simulates sourceProtocol Event.sourceCall (Runtime.InProtocol platform) := by
  intro r a t es k hR hstep
  obtain ⟨k', hk', hfollows⟩ := step_follows hR.1 hR.2 hstep
  exact ⟨k', hk', step_sound hR.1 hstep, hfollows⟩

theorem sound_init (platform : Platform) : ({} : Runtime).Sound platform := by
  have hreleased : ({} : SourceBooks).Released := ⟨rfl, rfl, rfl, rfl⟩
  have hgone : ({} : Runtime).Gone platform := Runtime.gone_of_none rfl
  exact ⟨⟨⟨.inl hreleased, fun _ => ⟨hreleased, hgone⟩, by simp, by simp⟩, rfl⟩, hgone.announced,
    .inl rfl⟩

theorem reachable_sound {platform : Platform} {r : Runtime}
    (h : (machine platform).Reachable {} r) : r.Sound platform :=
  (machine platform).reachable_invariant (sound_init platform)
    (fun _ _ _ _ hr hstep => step_sound hr hstep) h

theorem run_inProtocol {platform : Platform} {r : Runtime} {as : List Action} {es : List Event}
    (hrun : (machine platform).run {} as = some (r, es)) :
    ∃ k, sourceProtocol.accept .unowned (es.filterMap Event.sourceCall) = some k ∧
      r.InProtocol platform k :=
  (simulates_protocol platform).accept_run ⟨sound_init platform, rfl⟩ hrun

theorem Runtime.Resting.atRest {platform : Platform} {r : Runtime} (h : r.Resting platform) :
    r.AtRest platform where
  started := by
    rcases h.consistent with hb | hb | hb <;> simp [hb.started, hb.ownership]
  stopped hstopped :=
    ⟨(h.stopped hstopped).1.ownership, (h.stopped hstopped).1.stopCalled, (h.stopped hstopped).2⟩
  running hrunning := ⟨(h.running hrunning).1.ownership, (h.running hrunning).2⟩
  partialStart := h.partialStart

theorem operationStep_start {platform : Platform} {r r' : Runtime} {input : OperationInput}
    {pc pc' : OperationPc} {es : List Event} (hstart : .source .start ∈ es)
    (hstep : operationStep platform r input pc = some (r', pc', es)) : pc = .callStart := by
  cases pc with
  | callStart => rfl
  | idle | destroyed => cases hstep
  | refresh pc | refreshDiagnostic _ _ _ pc =>
    simp only [operationStep, Option.map_eq_some_iff, Prod.exists] at hstep
    obtain ⟨_, _, -, heq⟩ := hstep
    cases heq
    simp at hstart
  | awaitStart | createWorker | awaitWorker | joinWorker =>
    simp only [operationStep] at hstep
    split_ifs at hstep <;> cases hstep <;> simp at hstart
  | attemptStop | cleanUp =>
    simp only [operationStep] at hstep
    split at hstep <;> cases hstep <;> simp at hstart
  | _ =>
    cases hstep
    simp at hstart

/-- Every interleaving of lifecycle calls, worker and readers follows the source
protocol, starts the source only while nothing is owned, and between operations
the lifecycle tells what is owned and whether a worker exists. -/
theorem source_protocol {platform : Platform} {r : Runtime} {as : List Action} {es : List Event}
    (hrun : (machine platform).run {} as = some (r, es)) :
    (∃ k, sourceProtocol.accept .unowned (es.filterMap Event.sourceCall) = some k ∧
        (r.operation = .idle → (k = .unowned ↔ r.books.ownership = .none))) ∧
      (∀ a t fs, (machine platform).step r a = some (t, fs) → .source .start ∈ fs →
        r.books.ownership = .none) ∧
      (r.operation = .idle → r.AtRest platform) := by
  obtain ⟨k, haccept, hr, hk⟩ := run_inProtocol hrun
  refine ⟨⟨k, haccept, fun hidle => ?_⟩, fun a t fs hstep hstart => ?_,
    fun hidle => (hr.resting hidle).atRest⟩
  · rw [hidle] at hk
    replace hk : r.books.Standing k := hk
    cases hownership : r.books.ownership <;> simp only [SourceBooks.Standing, hownership] at hk
    · simp [hk]
    · obtain ⟨n, rfl, -⟩ := hk
      simp
    · obtain ⟨n, rfl, -⟩ := hk
      simp
  · cases step_cases hstep with
    | operation hop =>
      have howned := hr.owned
      rw [operationStep_start hstart hop] at howned
      exact howned.1.1.ownership
    | worker active hworker =>
      have := (workerStep_effect hworker).events _ hstart
      simp [Event.ofWorker] at this
    | _ => simp at hstart

/-- A source without retries fails its start and the first cleanup; the second
cleanup call comes from `stop()`. -/
def partialStartSchedule : List Action :=
  let operation (n : ℕ) : List Action := List.replicate n (.operation {})
  [.start] ++ operation 2 ++ [.operation { supportsRetry := false }] ++ operation 1 ++
    [.operation { result := .faulted }] ++ operation 1 ++ [.operation { result := .timeout }] ++
    operation 8 ++ [.stop false] ++ operation 8 ++ [.operation { result := .notRunning }] ++
    operation 9

theorem source_protocol_partial_start : ∃ r es,
    (machine .host).run {} partialStartSchedule = some (r, es) ∧
      es.filterMap Event.sourceCall = [.supportsStopRetry false, .start, .startReturned .faulted,
        .cleanup .stop, .cleanupReturned .timeout, .cleanup .stop, .cleanupReturned .notRunning] ∧
      r.AtRest .host := by
  have hobserved : ((machine .host).run {} partialStartSchedule).map (fun p =>
      (p.1.operation.isIdle, p.2.filterMap Event.sourceCall)) =
      some (true, [.supportsStopRetry false, .start, .startReturned .faulted, .cleanup .stop,
        .cleanupReturned .timeout, .cleanup .stop, .cleanupReturned .notRunning]) := by
    decide +kernel
  obtain ⟨⟨r, es⟩, hrun, heq⟩ := Option.map_eq_some_iff.mp hobserved
  simp only [Prod.mk.injEq] at heq
  obtain ⟨-, -, hrest⟩ := source_protocol hrun
  exact ⟨r, es, hrun, heq.2, hrest (OperationPc.isIdle_iff.mp heq.1)⟩

end Telemetry
end VehicleCanCore

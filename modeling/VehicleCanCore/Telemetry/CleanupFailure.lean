import VehicleCanCore.Telemetry.SourceProtocol

/-!
# Failures to clean a source up, and what the callers are told

A failure that the runtime will not retry is kept nowhere but in the `stop()`
call that got it. The call reports it as long as it reaches its end; the bounded
wait for the worker is the one place where it may return before. What callers
note of a run is folded into a record; the invariant is that the operation in
progress is bound to report whatever is still unreported.
-/

namespace VehicleCanCore
namespace Telemetry

open Automata

inductive LifecycleCall
  | start
  | stop
  deriving DecidableEq, Repr

/-- What there is to note about the lifecycle calls and the failures to clean up. -/
inductive CleanupNote
  | begun (call : LifecycleCall)
  | ended (result : ResultCode)
  | refused (call : LifecycleCall) (result : ResultCode)
  | abandoned (result : ResultCode)
  deriving DecidableEq, Repr

/-- A failure of the one-shot cleanup, which `stop()` does not make up for by a later call. -/
def SourceBooks.abandonsStop (b : SourceBooks) (result : ResultCode) : Bool :=
  !b.stopRetrySupported && result ≠ .ok && result ≠ .timeout && result ≠ .stopping

/-- The second failure to clean up after a partial start. -/
def SourceBooks.abandonsCleanup (b : SourceBooks) (result : ResultCode) : Bool :=
  !b.stopRetrySupported && 2 ≤ b.partialCleanupAttempts && result ≠ .ok && result ≠ .notRunning &&
    result ≠ .timeout && result ≠ .stopping

def OperationPc.cleanupNotes (b : SourceBooks) (result : ResultCode) :
    OperationPc → List CleanupNote
  | awaitStop _ => if b.abandonsStop result then [.abandoned result] else []
  | awaitCleanup _ => if b.abandonsCleanup result then [.abandoned result] else []
  | finish result => [.ended result]
  | _ => []

/-- A call that does not return at once has begun. -/
def LifecycleCall.notes (call : LifecycleCall) : List Event → List CleanupNote
  | [.called] => [.begun call]
  | [.called, .returned result] => [.refused call result]
  | _ => []

def Runtime.cleanupNotes (r : Runtime) : Action → List CleanupNote
  | .start => LifecycleCall.start.notes r.start.2
  | .stop false => LifecycleCall.stop.notes r.stop.2
  | .stop true => [.refused .stop .invalidState]
  | .operation input => r.operation.cleanupNotes r.books input.result
  | _ => []

/-- The operation in progress, whether the run has a failure that no call has
reported as `Faulted`, and whether some `stop()` has returned `Ok` over one. -/
structure CleanupHistory where
  call : Option LifecycleCall := none
  unreported : Bool := false
  swallowed : Bool := false
  deriving DecidableEq, Repr

namespace CleanupHistory

def returned (h : CleanupHistory) (call : Option LifecycleCall) (result : ResultCode) :
    CleanupHistory :=
  { h with
    unreported := h.unreported && result ≠ .faulted
    swallowed := h.swallowed || (h.unreported && call = some .stop && result = .ok) }

/-- An accepted `start()` begins a new run. -/
def next (h : CleanupHistory) : CleanupNote → CleanupHistory
  | .begun .start => { h with call := some .start, unreported := false }
  | .begun .stop => { h with call := some .stop }
  | .ended result => { h.returned h.call result with call := none }
  | .refused call result => h.returned (some call) result
  | .abandoned _ => { h with unreported := true }

def after (h : CleanupHistory) (notes : List CleanupNote) : CleanupHistory := notes.foldl next h

@[simp] theorem after_nil (h : CleanupHistory) : h.after [] = h := rfl

@[simp] theorem after_cons (h : CleanupHistory) (note : CleanupNote) (notes : List CleanupNote) :
    h.after (note :: notes) = (h.next note).after notes := rfl

theorem after_append (h : CleanupHistory) (notes more : List CleanupNote) :
    h.after (notes ++ more) = (h.after notes).after more := List.foldl_append

theorem returned_swallowed {h : CleanupHistory} (hs : h.swallowed = false)
    (call : Option LifecycleCall) {result : ResultCode}
    (hresult : h.unreported = true → result ≠ .ok) :
    (h.returned call result).swallowed = false := by
  cases hun : h.unreported with
  | false => simp [returned, hs, hun]
  | true => simp [returned, hs, hresult hun]

end CleanupHistory

/-- The bounded wait of `stop()` ends while the worker is still active, in a call
whose source has failed to stop for good. -/
def waitExpiresAfterFailure (platform : Platform) (r : Runtime) : Action → Bool
  | .operation _ =>
    match platform, r.operation with
    | .esp, .awaitWorker result =>
      r.workerActive && result ≠ .ok && !r.books.stopRetrySupported
    | _, _ => false
  | _ => false

/-- Every failed `stop()` outlasts its worker. -/
def WaitsOutFailures (platform : Platform) (r : Runtime) (a : Action) : Prop :=
  waitExpiresAfterFailure platform r a = false

instance (platform : Platform) (r : Runtime) (a : Action) :
    Decidable (WaitsOutFailures platform r a) := by
  unfold WaitsOutFailures
  infer_instance

theorem waitsOutFailures_host (r : Runtime) (a : Action) : WaitsOutFailures .host r a := by
  cases a <;> rfl

/-! ## What an operation is bound to return -/

def AfterDiagnostic.Reports : AfterDiagnostic → Prop
  | resetCache result | finish result => result = .faulted
  | _ => False

/-- From here on the operation in progress returns `Faulted` or is the destructor. -/
def OperationPc.Reports (b : SourceBooks) (pc : OperationPc) : Prop :=
  match pc with
  | awaitWorker result => stopResultOf result = .faulted ∧ b.stopRetrySupported = false
  | storeFinal e => e.result = .faulted
  | beginDiagnostic _ _ next | refreshDiagnostic _ _ next _ | writeDiagnostic _ _ next =>
    next.Reports
  | resetCacheAtEnd result | finish result => result = .faulted
  | _ => pc.destroying = true

/-- What is known of a `start()` that cleans up: after a successful start of the
source it is going to return `Faulted`, after a partial one it makes the first attempt. -/
def OperationPc.StartCleansUp (b : SourceBooks) : OperationPc → Prop
  | requestStop (.start result) | attemptStop (.start result) | awaitStop (.start result) =>
    result = .faulted
  | cleanUp (.start _) => b.partialCleanupAttempts = 0
  | awaitCleanup (.start _) => b.partialCleanupAttempts = 1
  | _ => True

theorem OperationPc.AfterCleanup.startCleansUp {b : SourceBooks} {pc : OperationPc}
    (h : pc.AfterCleanup) : pc.StartCleansUp b := by
  cases h <;> trivial

theorem AfterDiagnostic.startCleansUp (b : SourceBooks) (next : AfterDiagnostic) :
    next.pc.StartCleansUp b := by
  cases next <;> trivial

theorem stopResultOf_abandoned {b : SourceBooks} {result : ResultCode}
    (h : b.abandonsStop result = true) :
    stopResultOf result = .faulted ∧ b.stopRetrySupported = false := by
  simp only [SourceBooks.abandonsStop, Bool.and_eq_true, Bool.not_eq_true', decide_eq_true_eq] at h
  obtain ⟨⟨⟨hretry, hok⟩, htimeout⟩, hstopping⟩ := h
  exact ⟨by simp [stopResultOf, hok, htimeout, hstopping], hretry⟩

theorem endSourceStop_abandoned {b : SourceBooks} {result : ResultCode}
    (h : b.abandonsStop result = true) :
    (b.endSourceStop result).2 = result ∧
      (b.endSourceStop result).1.stopRetrySupported = false := by
  simp only [SourceBooks.abandonsStop, Bool.and_eq_true, Bool.not_eq_true', decide_eq_true_eq] at h
  obtain ⟨⟨⟨hretry, hok⟩, -⟩, -⟩ := h
  simp [SourceBooks.endSourceStop, hretry, hok]

theorem endPartialCleanup_abandoned {b : SourceBooks} {result : ResultCode}
    (h : b.abandonsCleanup result = true) :
    2 ≤ b.partialCleanupAttempts ∧ (b.endPartialCleanup result).2 = result ∧
      stopResultOf result = .faulted := by
  simp only [SourceBooks.abandonsCleanup, Bool.and_eq_true, Bool.not_eq_true',
    decide_eq_true_eq] at h
  obtain ⟨⟨⟨⟨⟨-, hattempts⟩, hok⟩, hnot⟩, htimeout⟩, hstopping⟩ := h
  exact ⟨hattempts, by simp [SourceBooks.endPartialCleanup, hok, hnot],
    by simp [stopResultOf, hok, htimeout, hstopping]⟩

theorem beginPartialCleanup_attempts {b b' : SourceBooks} {call : StopCall}
    (h : b.beginPartialCleanup = .ok (b', call)) :
    b'.partialCleanupAttempts = b.partialCleanupAttempts + 1 := by
  simp only [SourceBooks.beginPartialCleanup] at h
  split_ifs at h <;> cases h <;> rfl

theorem OperationPc.reports_of_destroying {b : SourceBooks} {pc : OperationPc}
    (h : pc.destroying = true) : pc.Reports b := by
  cases pc <;> first | exact h | cases h

theorem operationStep_startCleansUp {platform : Platform} {r r' : Runtime}
    {input : OperationInput} {pc pc' : OperationPc} {es : List Event}
    (h : pc.StartCleansUp r.books)
    (hstep : operationStep platform r input pc = some (r', pc', es)) :
    pc'.StartCleansUp r'.books := by
  cases pc with
  | idle | destroyed => cases hstep
  | awaitStart =>
    simp only [operationStep] at hstep
    split_ifs at hstep <;> cases hstep <;> trivial
  | clearWorkerActive =>
    cases hstep
    rfl
  | requestStop caller =>
    cases hstep
    cases caller with
    | start result => exact h
    | stop => trivial
    | destroy final =>
      exact destroyBy_of (P := fun pc => pc.StartCleansUp _) trivial trivial trivial
  | attemptStop caller =>
    simp only [operationStep] at hstep
    split at hstep <;> cases hstep
    · exact (afterSourceStop_afterCleanup _ caller).startCleansUp
    · cases caller with
      | start result => exact h
      | _ => trivial
  | awaitStop caller =>
    cases hstep
    exact (afterSourceStop_afterCleanup _ caller).startCleansUp
  | cleanUp caller =>
    simp only [operationStep] at hstep
    split at hstep <;> cases hstep
    · exact (afterPartialCleanup_afterCleanup _ caller).startCleansUp
    · cases caller with
      | start result =>
        have hattempts : r.books.partialCleanupAttempts = 0 := h
        simp [OperationPc.StartCleansUp, beginPartialCleanup_attempts ‹_›, hattempts]
      | _ => trivial
  | awaitCleanup caller =>
    cases hstep
    exact (afterPartialCleanup_afterCleanup _ caller).startCleansUp
  | refresh pc | refreshDiagnostic _ _ _ pc =>
    simp only [operationStep, Option.map_eq_some_iff, Prod.exists] at hstep
    obtain ⟨r'', pc'', hrefresh, heq⟩ := hstep
    cases heq
    cases pc'' <;> trivial
  | writeDiagnostic lifecycle transport next =>
    cases hstep
    exact next.startCleansUp _
  | retryCleanup =>
    cases hstep
    split_ifs
    · exact destroyBy_of (P := fun pc => pc.StartCleansUp _) trivial trivial trivial
    · trivial
  | createWorker | awaitWorker | joinWorker =>
    simp only [operationStep] at hstep
    split_ifs at hstep <;> cases hstep <;> trivial
  | _ =>
    cases hstep
    trivial

theorem operationStep_abandoned {platform : Platform} {r r' : Runtime} {input : OperationInput}
    {pc pc' : OperationPc} {es : List Event} (h : pc.StartCleansUp r.books)
    (hstep : operationStep platform r input pc = some (r', pc', es))
    (hnote : pc.cleanupNotes r.books input.result = [.abandoned input.result]) :
    pc'.Reports r'.books := by
  cases pc with
  | awaitStop caller =>
    simp only [OperationPc.cleanupNotes] at hnote
    split_ifs at hnote with habandoned
    obtain ⟨hcleanup, hretry⟩ := endSourceStop_abandoned habandoned
    obtain ⟨hfaulted, -⟩ := stopResultOf_abandoned habandoned
    simp only [operationStep, hcleanup, Option.some.injEq, Prod.mk.injEq] at hstep
    obtain ⟨rfl, rfl, -⟩ := hstep
    cases caller with
    | start result => exact h
    | stop =>
      have hresumes : ¬ (input.result = .timeout ∨ input.result = .stopping) := by
        rintro (heq | heq) <;> simp [heq, stopResultOf] at hfaulted
      simp only [afterSourceStop, Bool.or_eq_true, decide_eq_true_eq, if_neg hresumes]
      exact ⟨hfaulted, hretry⟩
    | destroy final => exact OperationPc.reports_of_destroying destroying_afterSourceStop
  | awaitCleanup caller =>
    simp only [OperationPc.cleanupNotes] at hnote
    split_ifs at hnote with habandoned
    obtain ⟨hattempts, hcleanup, hfaulted⟩ := endPartialCleanup_abandoned habandoned
    simp only [operationStep, hcleanup, Option.some.injEq, Prod.mk.injEq] at hstep
    obtain ⟨rfl, rfl, -⟩ := hstep
    cases caller with
    | start result =>
      have hfirst : r.books.partialCleanupAttempts = 1 := h
      rw [hfirst] at hattempts
      exact absurd hattempts (by decide)
    | stop => exact hfaulted
    | destroy final => exact OperationPc.reports_of_destroying destroying_afterPartialCleanup
  | finish result => simp [OperationPc.cleanupNotes] at hnote
  | _ => cases hnote

/-- An operation that is bound to report a failure stays so until it returns. -/
theorem operationStep_reports {platform : Platform} {r r' : Runtime} {input : OperationInput}
    {pc pc' : OperationPc} {es : List Event} (hpc : r.operation = pc) (h : pc.Reports r.books)
    (hwait : WaitsOutFailures platform r (.operation input))
    (hstep : operationStep platform r input pc = some (r', pc', es)) :
    pc = .finish .faulted ∨ pc'.Reports r'.books := by
  by_cases hdestroying : pc.destroying = true
  · exact .inr (OperationPc.reports_of_destroying (operationStep_destroying hdestroying hstep))
  cases pc with
  | awaitWorker result =>
    obtain ⟨hfaulted, hretry⟩ := h
    simp only [operationStep] at hstep
    split_ifs at hstep with hgone hexpired <;> cases hstep
    · exact .inr hfaulted
    · obtain ⟨rfl, -⟩ := hexpired
      have hactive : r.workerActive = true := by simpa [Runtime.workerGone] using hgone
      have hfailed : result ≠ .ok := by
        rintro rfl
        cases hfaulted
      simp [WaitsOutFailures, waitExpiresAfterFailure, hpc, hactive, hretry, hfailed] at hwait
  | storeFinal e =>
    cases hstep
    refine .inr ?_
    change AfterDiagnostic.Reports _
    split_ifs <;> exact h
  | beginDiagnostic lifecycle transport next =>
    cases hstep
    exact .inr h
  | refreshDiagnostic lifecycle transport next pc =>
    simp only [operationStep, Option.map_eq_some_iff, Prod.exists] at hstep
    obtain ⟨r'', pc'', hrefresh, heq⟩ := hstep
    cases heq
    cases pc'' <;> exact .inr h
  | writeDiagnostic lifecycle transport next =>
    cases hstep
    cases next with
    | resetCache result | finish result => exact .inr h
    | _ => exact h.elim
  | resetCacheAtEnd result =>
    cases hstep
    exact .inr h
  | finish result =>
    obtain rfl : result = .faulted := h
    exact .inl rfl
  | _ => exact absurd h hdestroying

/-! ## Runs -/

/-- Nothing has been swallowed, and what is unreported is about to be reported. -/
structure Runtime.InCleanup (platform : Platform) (h : CleanupHistory) (r : Runtime) : Prop where
  sound : r.Sound platform
  startCleansUp : r.operation.StartCleansUp r.books
  unswallowed : h.swallowed = false
  reports : h.unreported = true → r.operation.Reports r.books

/-- A call that comes while a failure is unreported is refused, as one is in progress. -/
theorem Runtime.InCleanup.operationActive {platform : Platform} {h : CleanupHistory} {r : Runtime}
    (hr : r.InCleanup platform h) (hunreported : h.unreported = true)
    (husable : r.operation.destroying = false) : r.operationActive = true := by
  have hreports := hr.reports hunreported
  rcases hr.sound.guarded with hidle | hdestroying | hactive
  · rw [hidle] at hreports
    cases hreports
  · simp [husable] at hdestroying
  · exact hactive

theorem Runtime.InCleanup.congr {platform : Platform} {h : CleanupHistory} {r t : Runtime}
    (hr : r.InCleanup platform h) (ht : t.Sound platform) (hoperation : t.operation = r.operation)
    (hbooks : t.books = r.books) : t.InCleanup platform h where
  sound := ht
  startCleansUp := by simpa only [hoperation, hbooks] using hr.startCleansUp
  unswallowed := hr.unswallowed
  reports hunreported := by simpa only [hoperation, hbooks] using hr.reports hunreported

theorem Runtime.InCleanup.refused {platform : Platform} {h : CleanupHistory} {r : Runtime}
    (hr : r.InCleanup platform h) (call : LifecycleCall) {result : ResultCode}
    (hresult : h.unreported = true → result ≠ .ok) :
    r.InCleanup platform (h.next (.refused call result)) where
  sound := hr.sound
  startCleansUp := hr.startCleansUp
  unswallowed := CleanupHistory.returned_swallowed hr.unswallowed _ hresult
  reports hunreported := by
    refine hr.reports ?_
    simp only [CleanupHistory.next, CleanupHistory.returned, Bool.and_eq_true] at hunreported
    exact hunreported.1

theorem Runtime.start_cases (r : Runtime) :
    (∃ result, r.start = (r, [.called, .returned result]) ∧
      (r.operationActive = true → result ≠ .ok)) ∨
    (r.operationActive = false ∧
      r.start = ({ r with operationActive := true, operation := .resetCache }, [.called])) := by
  unfold Runtime.start
  split_ifs with hvalid hbusy hstate
  · exact .inl ⟨.invalidConfiguration, rfl, by simp⟩
  · exact .inl ⟨.stopping, rfl, by simp⟩
  · exact .inl ⟨_, rfl, fun hactive => absurd hactive hbusy⟩
  · exact .inr ⟨Bool.eq_false_iff.mpr hbusy, rfl⟩

theorem Runtime.stop_cases (r : Runtime) :
    (∃ result, r.stop = (r, [.called, .returned result]) ∧
      (r.operationActive = true → result ≠ .ok)) ∨
    (r.operationActive = false ∧ ∃ pc, pc.StartCleansUp r.books ∧
      r.stop = ({ r with operationActive := true, operation := pc }, [.called])) := by
  unfold Runtime.stop
  split_ifs with hbusy hidle hpartialStart hstopping
  · exact .inl ⟨.stopping, rfl, by simp⟩
  · exact .inl ⟨.notRunning, rfl, by simp⟩
  · exact .inr ⟨Bool.eq_false_iff.mpr hbusy, .storeStopping .cleanUp, trivial, rfl⟩
  · exact .inr ⟨Bool.eq_false_iff.mpr hbusy, .beginDiagnostic .stopping .stopped .requestStop,
      trivial, rfl⟩
  · exact .inr ⟨Bool.eq_false_iff.mpr hbusy, .storeStopping .requestStop, trivial, rfl⟩

theorem cleanupNotes_cases (b : SourceBooks) (result : ResultCode) (pc : OperationPc) :
    pc.cleanupNotes b result = [.abandoned result] ∨
      (∃ returned, pc = .finish returned ∧ pc.cleanupNotes b result = [.ended returned]) ∨
      ((∀ returned, pc ≠ .finish returned) ∧ pc.cleanupNotes b result = []) := by
  cases pc with
  | finish returned => exact .inr (.inl ⟨returned, rfl, rfl⟩)
  | awaitStop | awaitCleanup =>
    simp only [OperationPc.cleanupNotes]
    split_ifs
    · exact .inl rfl
    · exact .inr (.inr ⟨by simp, rfl⟩)
  | _ => exact .inr (.inr ⟨by simp, rfl⟩)

theorem operationStep_inCleanup {platform : Platform} {h : CleanupHistory} {r r' : Runtime}
    {input : OperationInput} {pc : OperationPc} {es : List Event} (hr : r.InCleanup platform h)
    (hwait : WaitsOutFailures platform r (.operation input))
    (ht : ({ r' with operation := pc } : Runtime).Sound platform)
    (hstep : operationStep platform r input r.operation = some (r', pc, es)) :
    ({ r' with operation := pc } : Runtime).InCleanup platform
      (h.after (r.operation.cleanupNotes r.books input.result)) := by
  have hplaced := operationStep_startCleansUp hr.startCleansUp hstep
  rcases cleanupNotes_cases r.books input.result r.operation with
    habandoned | ⟨returned, hfinish, hended⟩ | ⟨hnot, hsilent⟩
  · have hreports := operationStep_abandoned hr.startCleansUp hstep habandoned
    rw [habandoned]
    exact ⟨ht, hplaced, hr.unswallowed, fun _ => hreports⟩
  · rw [hended]
    have hreports : h.unreported = true → returned = .faulted := by
      intro hunreported
      have := hr.reports hunreported
      rwa [hfinish] at this
    refine ⟨ht, hplaced, ?_, fun hstill => ?_⟩
    · refine CleanupHistory.returned_swallowed hr.unswallowed h.call fun hunreported => ?_
      simp [hreports hunreported]
    · simp only [CleanupHistory.after_cons, CleanupHistory.after_nil, CleanupHistory.next,
        CleanupHistory.returned, Bool.and_eq_true, decide_eq_true_eq] at hstill
      exact absurd (hreports hstill.1) hstill.2
  · rw [hsilent]
    refine ⟨ht, hplaced, hr.unswallowed, fun hunreported => ?_⟩
    rcases operationStep_reports rfl (hr.reports hunreported) hwait hstep with hfinish | hreports
    · exact absurd hfinish (hnot _)
    · exact hreports

theorem step_inCleanup {platform : Platform} {h : CleanupHistory} {r t : Runtime} {a : Action}
    {es : List Event} (hr : r.InCleanup platform h) (hwait : WaitsOutFailures platform r a)
    (hstep : step platform r a = some (t, es)) :
    t.InCleanup platform (h.after (r.cleanupNotes a)) := by
  have ht := step_sound hr.sound hstep
  cases a with
  | start =>
    simp only [step] at hstep
    split_ifs at hstep with husable
    have hidle := Bool.eq_false_iff.mpr husable
    rcases r.start_cases with ⟨result, heq, hresult⟩ | ⟨hfree, heq⟩ <;>
      rw [heq] at hstep <;> cases hstep
    · rw [show r.cleanupNotes .start = [.refused .start result] by
        simp [Runtime.cleanupNotes, heq, LifecycleCall.notes]]
      exact hr.refused .start fun hunreported => hresult (hr.operationActive hunreported hidle)
    · rw [show r.cleanupNotes .start = [.begun .start] by
        simp [Runtime.cleanupNotes, heq, LifecycleCall.notes]]
      exact ⟨ht, trivial, hr.unswallowed, by simp [CleanupHistory.next]⟩
  | stop byWorker =>
    cases byWorker with
    | true =>
      cases step_cases hstep
      exact hr.refused .stop (by simp)
    | false =>
      simp only [step] at hstep
      split_ifs at hstep with husable
      have hidle := Bool.eq_false_iff.mpr husable
      rcases r.stop_cases with ⟨result, heq, hresult⟩ | ⟨hfree, pc, hpc, heq⟩ <;>
        rw [heq] at hstep <;> cases hstep
      · rw [show r.cleanupNotes (.stop false) = [.refused .stop result] by
          simp [Runtime.cleanupNotes, heq, LifecycleCall.notes]]
        exact hr.refused .stop fun hunreported => hresult (hr.operationActive hunreported hidle)
      · rw [show r.cleanupNotes (.stop false) = [.begun .stop] by
          simp [Runtime.cleanupNotes, heq, LifecycleCall.notes]]
        refine ⟨ht, hpc, hr.unswallowed, fun hunreported => ?_⟩
        simp [hr.operationActive hunreported hidle] at hfree
  | operation input =>
    obtain ⟨r', pc, hop, rfl⟩ := step_operation hstep
    exact operationStep_inCleanup hr hwait ht hop
  | configure config =>
    cases step_cases hstep <;> exact hr.congr ht rfl rfl
  | destroy =>
    cases step_cases hstep with
    | destroy idle => exact ⟨ht, trivial, hr.unswallowed, fun _ => rfl⟩
    | refused => exact hr
  | worker input =>
    obtain ⟨pc, r', pc', active, hworker, rfl⟩ := step_worker hstep
    have heffect := workerStep_effect hworker
    exact hr.congr ht heffect.operation heffect.books
  | diagnostics now =>
    obtain ⟨-, rfl, -⟩ := step_diagnostics hstep
    obtain ⟨transport, heq⟩ := Runtime.updateSilenceDiagnostic_eq r now
    rw [heq] at ht ⊢
    exact hr.congr ht rfl rfl

/-- The record of a schedule, from a runtime that has not been used so far. -/
def cleanupHistory (platform : Platform) (as : List Action) : CleanupHistory :=
  ({} : CleanupHistory).after ((machine platform).history Runtime.cleanupNotes {} as)

/-- No `stop()` returns `Ok` over a failure of the source that will not be retried
before a call has returned `Faulted`, as long as no bounded wait for the worker
expires in the call that got such a failure. Joining has no limit. -/
theorem cleanup_failure_reported {platform : Platform} {as : List Action} {r : Runtime}
    {es : List Event} (hwait : (machine platform).Along (WaitsOutFailures platform) {} as)
    (hrun : (machine platform).run {} as = some (r, es)) :
    (cleanupHistory platform as).swallowed = false := by
  have hinit : ({} : Runtime).InCleanup platform {} :=
    ⟨sound_init platform, trivial, rfl, by simp⟩
  have hend : r.InCleanup platform (({} : CleanupHistory).after
      ([] ++ (machine platform).history Runtime.cleanupNotes {} as)) := by
    refine (machine platform).run_history_along
      (I := fun notes r => r.InCleanup platform (({} : CleanupHistory).after notes))
      (fun notes r a t es hr hC ht => ?_) hinit hwait hrun
    rw [CleanupHistory.after_append]
    exact step_inCleanup hr hC ht
  exact hend.unswallowed

/-- A source without retries fails to stop. The worker ends before the call looks
for it, or only after the bounded wait has expired. -/
def failedStopSchedule (inTime : Bool) : List Action :=
  let operation (n : ℕ) : List Action := List.replicate n (.operation {})
  let workerEnds : List Action := List.replicate 3 (.worker {})
  let failure : List Action := [.operation { result := .faulted }]
  let expiry : List Action := [.operation { ok := false }]
  let start : List Action := [.start] ++ operation 2 ++ [.operation { supportsRetry := false }] ++
    operation 12
  let stop : List Action := [.stop false] ++ operation 9
  start ++ stop ++ failure ++
    (if inTime then workerEnds ++ operation 10 else expiry ++ operation 1 ++ workerEnds)

def nextStopSchedule (steps : ℕ) : List Action :=
  [.stop false] ++ List.replicate steps (.operation {})

/-- The calls of a run, with what they return. -/
def Event.callView : Event → Option (Option ResultCode)
  | .called => some none
  | .returned result => some (some result)
  | _ => none

theorem cleanup_failure_reported_in_time : ∃ r es,
    (machine .esp).run {} (failedStopSchedule true ++ nextStopSchedule 19) = some (r, es) ∧
      es.filterMap Event.callView =
        [none, some .ok, none, some .faulted, none, some .ok] ∧
      (cleanupHistory .esp (failedStopSchedule true ++ nextStopSchedule 19)).swallowed = false := by
  have hobserved : ((machine .esp).run {} (failedStopSchedule true ++ nextStopSchedule 19)).map
      (fun p => p.2.filterMap Event.callView) =
      some [none, some .ok, none, some .faulted, none, some .ok] := by
    decide +kernel
  have hwait : (machine .esp).Along (WaitsOutFailures .esp) {}
      (failedStopSchedule true ++ nextStopSchedule 19) := by
    decide +kernel
  obtain ⟨⟨r, es⟩, hrun, heq⟩ := Option.map_eq_some_iff.mp hobserved
  exact ⟨r, es, hrun, heq, cleanup_failure_reported hwait hrun⟩

/-- The failure got lost with the call whose wait for the worker expired: no call
returns `Faulted`, and the next `stop()` returns `Ok`. -/
theorem cleanup_failure_swallowed : ∃ r es,
    (machine .esp).run {} (failedStopSchedule false ++ nextStopSchedule 18) = some (r, es) ∧
      es.filterMap Event.callView =
        [none, some .ok, none, some .timeout, none, some .ok] ∧
      (cleanupHistory .esp (failedStopSchedule false ++ nextStopSchedule 18)).swallowed = true := by
  have hobserved : ((machine .esp).run {} (failedStopSchedule false ++ nextStopSchedule 18)).map
      (fun p => p.2.filterMap Event.callView) =
      some [none, some .ok, none, some .timeout, none, some .ok] := by
    decide +kernel
  have hswallowed : (cleanupHistory .esp
      (failedStopSchedule false ++ nextStopSchedule 18)).swallowed = true := by
    decide +kernel
  obtain ⟨⟨r, es⟩, hrun, heq⟩ := Option.map_eq_some_iff.mp hobserved
  exact ⟨r, es, hrun, heq, hswallowed⟩

end Telemetry
end VehicleCanCore

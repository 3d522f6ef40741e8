import VehicleCanCore.Telemetry.Runtime

/-!
# What the threads of a runtime can change

The refresh of the statistics, the readers and the worker leave the source
ownership fields and the operation in progress alone. The lifecycle only becomes
faulted through the worker, and the worker only ends by publishing its end.
-/

namespace VehicleCanCore
namespace Telemetry

open VehicleCanCore.Core

namespace Runtime

theorem refreshStep_eq {r r' : Runtime} {statistics : AcquisitionStatistics} {pc : RefreshPc}
    {pc' : Option RefreshPc} (h : r.refreshStep statistics pc = some (r', pc')) :
    ∃ cache sampleUs valid refreshing, r' = { r with
      acquisitionStatisticsCache := cache
      acquisitionStatisticsSampleUs := sampleUs
      acquisitionStatisticsCacheValid := valid
      refreshing := refreshing } := by
  cases pc with
  | acquire | check =>
    simp only [refreshStep] at h
    split_ifs at h <;> cases h <;> exact ⟨_, _, _, _, rfl⟩
  | query | store =>
    cases h
    exact ⟨_, _, _, _, rfl⟩

theorem updateSilenceDiagnostic_eq (r : Runtime) (now : UInt64) :
    ∃ transport, r.updateSilenceDiagnostic now =
      { r with diagnostics := { r.diagnostics with transport := transport } } := by
  unfold updateSilenceDiagnostic
  split_ifs
  · exact ⟨_, rfl⟩
  · exact ⟨r.diagnostics.transport, rfl⟩

theorem recordOutcome_eq (r : Runtime) (outcome : Outcome) (time : UInt64) :
    ∃ d, r.recordOutcome outcome time = { r with diagnostics := d } := by
  cases outcome with
  | frame | fault | notStarted => exact ⟨_, rfl⟩
  | timeout =>
    simp only [recordOutcome]
    split_ifs
    · exact ⟨_, rfl⟩
    · obtain ⟨transport, heq⟩ := updateSilenceDiagnostic_eq
        { r with diagnostics := { r.diagnostics with acquisition := r.acquisitionStatisticsCache } }
        time
      exact ⟨_, heq⟩

/-- There is no thread that could still run, or that would have to be joined. -/
def Gone (platform : Platform) (r : Runtime) : Prop :=
  match r.worker with
  | none => True
  | some pc => platform = .esp ∧ pc.isFinished = true

theorem gone_of_none {platform : Platform} {r : Runtime} (h : r.worker = none) :
    r.Gone platform := by
  simp [Gone, h]

theorem Gone.congr {platform : Platform} {r r' : Runtime} (h : r.Gone platform)
    (hworker : r'.worker = r.worker) : r'.Gone platform := by
  rwa [Gone, hworker]

@[simp] theorem join_books (platform : Platform) (r : Runtime) :
    (r.join platform).books = r.books := by
  cases platform <;> rfl

/-- A worker that has not ended has not published its end. -/
def WorkerAnnounced (r : Runtime) : Prop :=
  ∀ pc, r.worker = some pc → pc.isFinished = false → r.workerActive = true

theorem WorkerAnnounced.finished {platform : Platform} {r : Runtime} {pc : WorkerPc}
    (hannounced : r.WorkerAnnounced) (hgone : r.workerGone platform = true)
    (hpc : r.worker = some pc) : pc.isFinished = true := by
  cases platform with
  | host => simpa [workerGone, hpc] using hgone
  | esp =>
    have hinactive : r.workerActive = false := by simpa [workerGone] using hgone
    by_contra hrunning
    have hactive := hannounced pc hpc (Bool.eq_false_iff.mpr hrunning)
    simp [hinactive] at hactive

theorem gone_join {platform : Platform} {r : Runtime} (hannounced : r.WorkerAnnounced)
    (hgone : r.workerGone platform = true) : (r.join platform).Gone platform := by
  cases platform with
  | host => exact gone_of_none rfl
  | esp =>
    cases hworker : r.worker with
    | none => exact gone_of_none hworker
    | some pc => simp [Gone, join, hworker, hannounced.finished hgone hworker]

end Runtime

/-! ## Where an operation goes on -/

/-- Where an operation goes on once a cleanup helper has returned. -/
inductive OperationPc.AfterCleanup : OperationPc → Prop
  | storeFinal (e : Ending) : AfterCleanup (.storeFinal e)
  | finish (result : ResultCode) : AfterCleanup (.finish result)
  | awaitWorker (cleanup : ResultCode) : AfterCleanup (.awaitWorker cleanup)
  | joinWorker : AfterCleanup .joinWorker
  | destroyed : AfterCleanup .destroyed

theorem afterSourceStop_afterCleanup (cleanup : ResultCode) (caller : Cleaner) :
    (afterSourceStop cleanup caller).AfterCleanup := by
  cases caller with
  | start result => exact .storeFinal _
  | stop =>
    simp only [afterSourceStop]
    split_ifs
    · exact .finish _
    · exact .awaitWorker _
  | destroy final =>
    cases final
    · exact .joinWorker
    · exact .destroyed

theorem afterPartialCleanup_afterCleanup (cleanup : ResultCode) (caller : Cleaner) :
    (afterPartialCleanup cleanup caller).AfterCleanup := by
  cases caller with
  | start result => exact .storeFinal _
  | stop => exact .storeFinal _
  | destroy final =>
    cases final
    · exact .joinWorker
    · exact .destroyed

theorem destroyBy_of {P : OperationPc → Prop} {final : Bool} {otherwise : OperationPc}
    {ownership : SourceOwnership} (hotherwise : P otherwise)
    (hstop : P (.attemptStop (.destroy final))) (hcleanUp : P (.cleanUp (.destroy final))) :
    P (destroyBy final otherwise ownership) := by
  cases ownership with
  | none => exact hotherwise
  | successfulStart => exact hstop
  | partialStart => exact hcleanUp

/-! ## The worker -/

def Event.ofWorker : Event → Bool
  | .received _ | .processed _ _ | .recorded _ | .frameProcessed _ _ | .diagnosed _
  | .budgetPause | .stopRequested => true
  | _ => false

structure WorkerPc.Effect (r r' : Runtime) (pc pc' : WorkerPc) (es : List Event) : Prop where
  books : r'.books = r.books
  operation : r'.operation = r.operation
  operationActive : r'.operationActive = r.operationActive
  config : r'.config = r.config
  running : pc.isFinished = false
  lifecycle : r'.lifecycle = r.lifecycle ∨ r'.lifecycle = .faulted
  active : (r'.workerActive = r.workerActive ∧ pc'.isFinished = false) ∨
    (r'.workerActive = false ∧ pc'.isFinished = true)
  stopRequested : r.stopRequested = true → r'.stopRequested = true
  events : ∀ e ∈ es, e.ofWorker = true

theorem workerStep_effect {r r' : Runtime} {input : WorkerInput} {pc pc' : WorkerPc}
    {es : List Event} (h : workerStep r input pc = some (r', pc', es)) :
    WorkerPc.Effect r r' pc pc' es := by
  have hsame : ∀ {pc pc' : WorkerPc} {es : List Event}, pc.isFinished = false →
      pc'.isFinished = false → (∀ e ∈ es, e.ofWorker = true) → WorkerPc.Effect r r pc pc' es :=
    fun hpc hpc' hes => ⟨rfl, rfl, rfl, rfl, hpc, .inl rfl, .inl ⟨rfl, hpc'⟩, id, hes⟩
  cases pc with
  | finished => cases h
  | exiting =>
    cases h
    exact ⟨rfl, rfl, rfl, rfl, rfl, .inl rfl, .inr ⟨rfl, rfl⟩, id, by simp⟩
  | loopHead | completed | batchDone | beginPause | pause =>
    cases h
    exact hsame rfl (by split <;> rfl) (by simp)
  | begin | onFrameProcessed | receive =>
    cases h
    exact hsame rfl rfl (by simp [Event.ofWorker])
  | process =>
    cases h
    exact hsame rfl rfl (by simp [Event.ofWorker])
  | onDiagnostics =>
    cases h
    exact hsame rfl (by split <;> rfl) (by simp [Event.ofWorker])
  | received budget received time =>
    simp only [workerStep] at h
    split_ifs at h
    · cases h
      exact hsame rfl rfl (by simp)
    · cases received <;> cases h <;> exact hsame rfl rfl (by simp)
  | refresh budget outcome time pc =>
    simp only [workerStep, Option.map_eq_some_iff, Prod.exists] at h
    obtain ⟨r'', pc'', hrefresh, heq⟩ := h
    obtain ⟨_, _, _, _, rfl⟩ := Runtime.refreshStep_eq hrefresh
    cases heq
    exact ⟨rfl, rfl, rfl, rfl, rfl, .inl rfl, .inl ⟨rfl, by cases pc'' <;> rfl⟩, id, by simp⟩
  | record budget outcome time =>
    obtain ⟨d, heq⟩ := Runtime.recordOutcome_eq r outcome time
    simp only [workerStep, heq] at h
    cases outcome <;> cases h <;>
      exact ⟨rfl, rfl, rfl, rfl, rfl, .inl rfl, .inl ⟨rfl, rfl⟩, id, by simp [Event.ofWorker]⟩
  | storeFaulted =>
    cases h
    exact ⟨rfl, rfl, rfl, rfl, rfl, .inr rfl, .inl ⟨rfl, rfl⟩, id, by simp⟩
  | requestStop =>
    cases h
    exact ⟨rfl, rfl, rfl, rfl, rfl, .inl rfl, .inl ⟨rfl, rfl⟩, fun _ => rfl,
      by simp [Event.ofWorker]⟩
  | afterReceive budget outcome =>
    simp only [workerStep] at h
    split at h <;> cases h <;> exact hsame rfl rfl (by simp)
  | checkpoint budget action =>
    obtain ⟨transport, heq⟩ := Runtime.updateSilenceDiagnostic_eq r input.now
    simp only [workerStep, heq] at h
    cases h
    exact ⟨rfl, rfl, rfl, rfl, rfl, .inl rfl, .inl ⟨rfl, by split <;> rfl⟩, id, by simp⟩
  | recordPause =>
    cases h
    exact ⟨rfl, rfl, rfl, rfl, rfl, .inl rfl, .inl ⟨rfl, rfl⟩, id, by simp [Event.ofWorker]⟩

end Telemetry
end VehicleCanCore

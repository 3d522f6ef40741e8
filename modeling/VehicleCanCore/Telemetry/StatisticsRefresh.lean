import VehicleCanCore.Telemetry.LifecycleViews

/-!
# Who refreshes the acquisition statistics

The due test, the call on the source and the publication are three critical
sections, and the operations force reads of their own beside the worker. Here is
what a step of either thread does to the cache, and what the refresh mutex and the
lifecycle make of it: a worker always finds a valid cache, and of two refreshes at
most one is past the mutex.
-/

namespace VehicleCanCore
namespace Telemetry

open Automata

/-! ## What a run shows of the cache -/

/-- `sampled` is the clock, for the evaluation of a receive or for a forced read,
`outcome` the return from `receive` or `process`. The due test of the worker is
`evaluated`, with or without an operation in progress; a refresh that goes on to a
read is `triggered`, with the sample time recorded before. `published` is the
snapshot that the worker takes, `shown` any snapshot. -/
inductive StatisticsEvent
  | sampled (now : UInt64)
  | outcome
  | evaluated (alone : Bool)
  | triggered (now : UInt64) (force : Bool) (recordedUs : UInt64) (alone : Bool)
  | read (statistics : AcquisitionStatistics)
  | stored (now : UInt64)
  | began
  | published (outcome : Outcome) (time : UInt64) (statistics : AcquisitionStatistics)
  | shown (statistics : AcquisitionStatistics)
  deriving DecidableEq

def RefreshPc.statisticsEvents (r : Runtime) (alone : Bool) (statistics : AcquisitionStatistics) :
    RefreshPc → List StatisticsEvent
  | acquire _ _ => []
  | check now force =>
    if !force && !r.acquisitionStatisticsRefreshDue now then []
    else [.triggered now force r.acquisitionStatisticsSampleUs alone]
  | query _ => [.read statistics]
  | store now _ => [.stored now]

def OperationPc.statisticsEvents (r : Runtime) (input : OperationInput) :
    OperationPc → List StatisticsEvent
  | setWorkerActive | beginDiagnostic _ _ _ => [.sampled input.now]
  | refresh pc | refreshDiagnostic _ _ _ pc => pc.statisticsEvents r false input.statistics
  | resetDiagnostics => [.began]
  | _ => []

/-- The due test of the worker. -/
def RefreshPc.evaluations (alone : Bool) : RefreshPc → List StatisticsEvent
  | check _ _ => [.evaluated alone]
  | _ => []

def WorkerPc.statisticsEvents (r : Runtime) (input : WorkerInput) :
    WorkerPc → List StatisticsEvent
  | receive _ => [.sampled input.now, .outcome]
  | received _ .timeout _ => if r.stopRequested then [] else [.sampled input.now]
  | process _ _ _ => [.outcome]
  | refresh _ _ _ pc =>
    pc.evaluations r.operation.isIdle ++
      pc.statisticsEvents r r.operation.isIdle input.statistics
  | record _ outcome time =>
    let snapshot := (r.recordOutcome outcome time).diagnostics
    [.published outcome time snapshot.acquisition, .shown snapshot.acquisition]
  | _ => []

def Runtime.statisticsEvents (r : Runtime) : Action → List StatisticsEvent
  | .operation input => r.operation.statisticsEvents r input
  | .worker input => r.worker.elim [] (WorkerPc.statisticsEvents r input)
  | .diagnostics now => [.shown (r.updateSilenceDiagnostic now).diagnostics.acquisition]
  | _ => []

/-! ## What a step does to the cache -/

def OperationPc.refreshing : OperationPc → Option RefreshPc
  | refresh pc | refreshDiagnostic _ _ _ pc => some pc
  | _ => none

def WorkerPc.refreshing : WorkerPc → Option RefreshPc
  | refresh _ _ _ pc => some pc
  | _ => none

structure Runtime.SameCache (r r' : Runtime) : Prop where
  value : r'.acquisitionStatisticsCache = r.acquisitionStatisticsCache
  sampleUs : r'.acquisitionStatisticsSampleUs = r.acquisitionStatisticsSampleUs
  valid : r'.acquisitionStatisticsCacheValid = r.acquisitionStatisticsCacheValid
  refreshing : r'.refreshing = r.refreshing
  shown : r'.diagnostics.acquisition = r.diagnostics.acquisition

theorem Runtime.sameCache_refl (r : Runtime) : r.SameCache r := ⟨rfl, rfl, rfl, rfl, rfl⟩

/-- An operation leaves the worker alone, joins it or creates one. -/
def OperationPc.WorkerKept (r r' : Runtime) (pc : OperationPc) : Prop :=
  r'.worker = r.worker ∨ r.worker.all WorkerPc.isFinished = true ∧ r'.worker = none ∨
    pc = .createWorker ∧ r'.worker = some .begin

/-- The five ways in which a step of an operation concerns the cache. -/
inductive OperationPc.CacheEffect (r : Runtime) (input : OperationInput) (pc : OperationPc)
    (r' : Runtime) (pc' : OperationPc) : Prop
  | refreshes {p : RefreshPc} {p' : Option RefreshPc} (active : pc.refreshing = some p)
    (events : pc.statisticsEvents r input = p.statisticsEvents r false input.statistics)
    (refresh : r.refreshStep input.statistics p = some (r', p')) (after : pc'.refreshing = p')
  | samples (idle : pc.refreshing = none)
    (events : pc.statisticsEvents r input = [.sampled input.now]) (same : r.SameCache r')
    (worker : r'.worker = r.worker) (after : pc'.refreshing = some (.acquire input.now true))
  | forgets (idle : pc.refreshing = none) (events : pc.statisticsEvents r input = [])
    (kind : pc = .resetCache ∨ ∃ result, pc = .resetCacheAtEnd result)
    (eq : r' = r.resetAcquisitionStatisticsCacheState) (after : pc'.refreshing = none)
  | shows {d : TransportDiagnostics} (idle : pc.refreshing = none)
    (events : pc.statisticsEvents r input = [] ∨
      pc = .resetDiagnostics ∧ pc.statisticsEvents r input = [.began])
    (eq : r' = { r with diagnostics := d }) (current : d.acquisition = r.acquisitionStatisticsCache)
    (after : pc'.refreshing = none)
  | spares (idle : pc.refreshing = none) (events : pc.statisticsEvents r input = [])
    (same : r.SameCache r') (worker : pc.WorkerKept r r') (after : pc'.refreshing = none)

theorem OperationPc.AfterCleanup.refreshing {pc : OperationPc} (h : pc.AfterCleanup) :
    pc.refreshing = none := by
  cases h <;> rfl

theorem AfterDiagnostic.refreshing (next : AfterDiagnostic) : next.pc.refreshing = none := by
  cases next <;> rfl

theorem operationStep_cacheEffect {platform : Platform} {r r' : Runtime} {input : OperationInput}
    {pc pc' : OperationPc} {es : List Event}
    (hstep : operationStep platform r input pc = some (r', pc', es)) :
    OperationPc.CacheEffect r input pc r' pc' := by
  cases pc with
  | idle | destroyed => cases hstep
  | resetCache =>
    cases hstep
    exact .forgets rfl rfl (.inl rfl) rfl rfl
  | resetCacheAtEnd result =>
    cases hstep
    exact .forgets rfl rfl (.inr ⟨result, rfl⟩) rfl rfl
  | setWorkerActive =>
    cases hstep
    exact .samples rfl rfl ⟨rfl, rfl, rfl, rfl, rfl⟩ rfl rfl
  | beginDiagnostic =>
    cases hstep
    exact .samples rfl rfl r.sameCache_refl rfl rfl
  | refresh p | refreshDiagnostic _ _ _ p =>
    simp only [operationStep, Option.map_eq_some_iff, Prod.exists] at hstep
    obtain ⟨r'', p', hrefresh, heq⟩ := hstep
    cases heq
    exact .refreshes rfl rfl hrefresh (by cases p' <;> rfl)
  | resetDiagnostics =>
    cases hstep
    exact .shows rfl (.inr ⟨rfl, rfl⟩) rfl rfl rfl
  | writeDiagnostic lifecycle transport next =>
    cases hstep
    exact .shows rfl (.inl rfl) rfl rfl next.refreshing
  | awaitStart =>
    simp only [operationStep] at hstep
    split_ifs at hstep <;> cases hstep <;>
      exact .spares rfl rfl ⟨rfl, rfl, rfl, rfl, rfl⟩ (.inl rfl) rfl
  | createWorker =>
    simp only [operationStep] at hstep
    split_ifs at hstep <;> cases hstep
    · exact .spares rfl rfl ⟨rfl, rfl, rfl, rfl, rfl⟩ (.inr (.inr ⟨rfl, rfl⟩)) rfl
    · exact .spares rfl rfl r.sameCache_refl (.inl rfl) rfl
  | awaitWorker | joinWorker =>
    simp only [operationStep] at hstep
    split_ifs at hstep with hgone <;> cases hstep
    all_goals first
      | exact .spares rfl rfl r.sameCache_refl (.inl rfl) rfl
      | cases platform
        · exact .spares rfl rfl ⟨rfl, rfl, rfl, rfl, rfl⟩ (.inr (.inl ⟨hgone, rfl⟩)) rfl
        · exact .spares rfl rfl r.sameCache_refl (.inl rfl) rfl
  | attemptStop caller =>
    simp only [operationStep] at hstep
    split at hstep <;> cases hstep
    · exact .spares rfl rfl r.sameCache_refl (.inl rfl)
        (afterSourceStop_afterCleanup _ caller).refreshing
    · exact .spares rfl rfl ⟨rfl, rfl, rfl, rfl, rfl⟩ (.inl rfl) rfl
  | cleanUp caller =>
    simp only [operationStep] at hstep
    split at hstep <;> cases hstep
    · exact .spares rfl rfl r.sameCache_refl (.inl rfl)
        (afterPartialCleanup_afterCleanup _ caller).refreshing
    · exact .spares rfl rfl ⟨rfl, rfl, rfl, rfl, rfl⟩ (.inl rfl) rfl
  | awaitStop caller =>
    cases hstep
    exact .spares rfl rfl ⟨rfl, rfl, rfl, rfl, rfl⟩ (.inl rfl)
      (afterSourceStop_afterCleanup _ caller).refreshing
  | awaitCleanup caller =>
    cases hstep
    exact .spares rfl rfl ⟨rfl, rfl, rfl, rfl, rfl⟩ (.inl rfl)
      (afterPartialCleanup_afterCleanup _ caller).refreshing
  | requestStop caller =>
    cases hstep
    refine .spares rfl rfl ⟨rfl, rfl, rfl, rfl, rfl⟩ (.inl rfl) ?_
    cases caller with
    | destroy final => exact destroyBy_of (P := fun pc => pc.refreshing = none) rfl rfl rfl
    | _ => rfl
  | retryCleanup =>
    cases hstep
    refine .spares rfl rfl r.sameCache_refl (.inl rfl) ?_
    split_ifs
    · exact destroyBy_of (P := fun pc => pc.refreshing = none) rfl rfl rfl
    · rfl
  | _ =>
    cases hstep
    exact .spares rfl rfl ⟨rfl, rfl, rfl, rfl, rfl⟩ (.inl rfl) rfl

/-- The evaluation time of the snapshot that the worker is about to take. -/
def WorkerPc.time : WorkerPc → Option UInt64
  | received _ _ time | process _ _ time | refresh _ _ time _ | record _ _ time => some time
  | _ => none

def WorkerPc.recording : WorkerPc → Bool
  | record _ _ _ => true
  | _ => false

theorem updateSilenceDiagnostic_acquisition (r : Runtime) (now : UInt64) :
    (r.updateSilenceDiagnostic now).diagnostics.acquisition = r.diagnostics.acquisition := by
  unfold Runtime.updateSilenceDiagnostic
  split_ifs <;> rfl

theorem count_acquisition (d : TransportDiagnostics) (result : ProcessStatus) :
    (d.count result).acquisition = d.acquisition := by
  cases result <;> rfl

theorem recordOutcome_acquisition (r : Runtime) (outcome : Outcome) (time : UInt64) :
    (r.recordOutcome outcome time).diagnostics.acquisition = r.acquisitionStatisticsCache := by
  cases outcome with
  | frame frame result => exact count_acquisition _ result
  | timeout =>
    simp only [Runtime.recordOutcome]
    split_ifs
    · rfl
    · exact updateSilenceDiagnostic_acquisition _ time
  | fault | notStarted => rfl

/-- The five ways in which a step of the worker concerns the cache. -/
inductive WorkerPc.CacheEffect (r : Runtime) (input : WorkerInput) (pc : WorkerPc) (r' : Runtime)
    (pc' : WorkerPc) : Prop
  | receives {budget : WorkBudget} {received : Received} (eq : r' = r)
    (events : pc.statisticsEvents r input = [.sampled input.now, .outcome])
    (before : pc.refreshing = none) (after : pc' = .received budget received input.now)
  | evaluates {budget : WorkBudget} {outcome : Outcome} {time : UInt64} (eq : r' = r)
    (events : pc.time = some time ∧ (pc.statisticsEvents r input = [] ∨
        pc.statisticsEvents r input = [.outcome]) ∨
      time = input.now ∧ pc.statisticsEvents r input = [.sampled input.now])
    (before : pc.refreshing = none)
    (after : pc' = .refresh budget outcome time (.acquire time outcome.terminal))
  | refreshes {budget : WorkBudget} {outcome : Outcome} {time : UInt64} {p : RefreshPc}
    {p' : Option RefreshPc} (before : pc = .refresh budget outcome time p)
    (refresh : r.refreshStep input.statistics p = some (r', p'))
    (after : pc' = p'.elim (.record budget outcome time) (.refresh budget outcome time))
  | records {budget : WorkBudget} {outcome : Outcome} {time : UInt64} {d : TransportDiagnostics}
    (before : pc = .record budget outcome time) (eq : r' = { r with diagnostics := d })
    (current : d.acquisition = r.acquisitionStatisticsCache)
    (events : pc.statisticsEvents r input = [.published outcome time r.acquisitionStatisticsCache,
      .shown r.acquisitionStatisticsCache])
    (refreshing : pc'.refreshing = none) (time : pc'.time = none)
  | spares (same : r.SameCache r') (events : pc.statisticsEvents r input = [])
    (before : pc.refreshing = none) (refreshing : pc'.refreshing = none)
    (recording : pc'.recording = false) (time : ∀ t, pc'.time = some t → pc.time = some t)

theorem workerStep_cacheEffect {r r' : Runtime} {input : WorkerInput} {pc pc' : WorkerPc}
    {es : List Event} (hstep : workerStep r input pc = some (r', pc', es)) :
    WorkerPc.CacheEffect r input pc r' pc' := by
  cases pc with
  | finished => cases hstep
  | receive budget =>
    cases hstep
    exact .receives rfl rfl rfl rfl
  | received budget received time =>
    simp only [workerStep] at hstep
    split_ifs at hstep with hstop
    · cases hstep
      refine .spares r.sameCache_refl ?_ rfl rfl rfl (by simp [WorkerPc.time])
      cases received <;> simp [WorkerPc.statisticsEvents, hstop]
    · cases received <;> cases hstep
      · exact .spares r.sameCache_refl rfl rfl rfl rfl fun t ht => ht
      · exact .evaluates rfl (.inr ⟨rfl, by simp [WorkerPc.statisticsEvents, hstop]⟩) rfl rfl
      · exact .evaluates rfl (.inl ⟨rfl, .inl rfl⟩) rfl rfl
      · exact .evaluates rfl (.inl ⟨rfl, .inl rfl⟩) rfl rfl
  | process budget frame time =>
    have hforce : decide (input.result = .fault) =
        (Outcome.frame frame input.result).terminal := by
      cases input.result <;> rfl
    cases hstep
    exact .evaluates rfl (.inl ⟨rfl, .inr rfl⟩) rfl (by rw [hforce])
  | refresh budget outcome time p =>
    simp only [workerStep, Option.map_eq_some_iff, Prod.exists] at hstep
    obtain ⟨r'', p', hrefresh, heq⟩ := hstep
    cases heq
    exact .refreshes rfl hrefresh rfl
  | record budget outcome time =>
    obtain ⟨d, heq⟩ := Runtime.recordOutcome_eq r outcome time
    have hcurrent := recordOutcome_acquisition r outcome time
    have hevents : (WorkerPc.record budget outcome time).statisticsEvents r input =
        [.published outcome time r.acquisitionStatisticsCache,
          .shown r.acquisitionStatisticsCache] := by
      simp only [WorkerPc.statisticsEvents, hcurrent]
    rw [heq] at hcurrent
    simp only [workerStep, heq] at hstep
    cases outcome <;> cases hstep <;> exact .records rfl rfl hcurrent hevents rfl rfl
  | checkpoint budget action =>
    cases hstep
    obtain ⟨transport, heq⟩ := Runtime.updateSilenceDiagnostic_eq r input.now
    rw [heq]
    split_ifs <;>
      exact .spares ⟨rfl, rfl, rfl, rfl, rfl⟩ rfl rfl rfl rfl (by simp [WorkerPc.time])
  | loopHead | completed | batchDone | beginPause | pause | onDiagnostics =>
    cases hstep
    split_ifs <;> exact .spares r.sameCache_refl rfl rfl rfl rfl (by simp [WorkerPc.time])
  | afterReceive budget outcome =>
    simp only [workerStep] at hstep
    split at hstep <;> cases hstep <;>
      exact .spares r.sameCache_refl rfl rfl rfl rfl (by simp [WorkerPc.time])
  | _ =>
    cases hstep
    exact .spares ⟨rfl, rfl, rfl, rfl, rfl⟩ rfl rfl rfl rfl (by simp [WorkerPc.time])

/-! ## Who refreshes, and when -/

/-- The shapes of a step of `refresh_acquisition_statistics_if_due`. -/
inductive Runtime.RefreshStepped (r : Runtime) (statistics : AcquisitionStatistics) :
    RefreshPc → Runtime → Option RefreshPc → Prop
  | acquire {now : UInt64} {force : Bool} (free : r.refreshing = false) :
    RefreshStepped r statistics (.acquire now force) { r with refreshing := true }
      (some (.check now force))
  | skip {now : UInt64} (due : r.acquisitionStatisticsRefreshDue now = false) :
    RefreshStepped r statistics (.check now false) { r with refreshing := false } none
  | go {now : UInt64} {force : Bool}
    (due : force = true ∨ r.acquisitionStatisticsRefreshDue now = true) :
    RefreshStepped r statistics (.check now force) r (some (.query now))
  | query {now : UInt64} : RefreshStepped r statistics (.query now) r (some (.store now statistics))
  | store {now : UInt64} {answer : AcquisitionStatistics} :
    RefreshStepped r statistics (.store now answer)
      { r with
        acquisitionStatisticsCache := answer
        acquisitionStatisticsSampleUs := now
        acquisitionStatisticsCacheValid := true
        refreshing := false } none

theorem refreshStep_cases {r r' : Runtime} {statistics : AcquisitionStatistics} {p : RefreshPc}
    {p' : Option RefreshPc} (h : r.refreshStep statistics p = some (r', p')) :
    r.RefreshStepped statistics p r' p' := by
  cases p with
  | acquire now force =>
    simp only [Runtime.refreshStep] at h
    split_ifs at h with hbusy
    cases h
    exact .acquire (Bool.eq_false_iff.mpr hbusy)
  | check now force =>
    simp only [Runtime.refreshStep] at h
    split_ifs at h with hskip <;> cases h
    · simp only [Bool.and_eq_true, Bool.not_eq_true'] at hskip
      obtain ⟨rfl, hdue⟩ := hskip
      exact .skip hdue
    · refine .go ?_
      cases force <;> simp_all
  | query now =>
    cases h
    exact .query
  | store now answer =>
    cases h
    exact .store

/-- Past the acquisition of `acquisition_statistics_refresh_mutex_`. -/
def RefreshPc.holds : RefreshPc → Bool
  | acquire _ _ => false
  | _ => true

def RefreshPc.now : RefreshPc → UInt64
  | acquire now _ | check now _ | query now | store now _ => now

def RefreshPc.Forced (force : Bool) : RefreshPc → Prop
  | acquire _ asked | check _ asked => asked = force
  | _ => True

/-- The worker refreshes for its evaluation time, with force for terminal outcomes. -/
def WorkerPc.Evaluates : WorkerPc → Prop
  | refresh _ outcome time p => p.now = time ∧ p.Forced outcome.terminal
  | _ => True

/-- When the cache is valid, and when an operation may reset it. -/
def OperationPc.CacheReady (platform : Platform) (r : Runtime) : OperationPc → Prop
  | resetDiagnostics | storeRunning | createWorker => r.acquisitionStatisticsCacheValid = true
  | storeStopping next => ∀ result, next ≠ .resetCache result
  | beginDiagnostic lifecycle _ next | refreshDiagnostic lifecycle _ next _
  | writeDiagnostic lifecycle _ next =>
    (∃ result, next = .resetCache result) → lifecycle ≠ .stopping
  | resetCache | resetCacheAtEnd _ => r.Gone platform
  | _ => True

/-- Of two refreshes at most one holds the mutex, which is held then. -/
structure RefreshExclusive (held : Bool) (mine other : Option RefreshPc) : Prop where
  left : ∀ p, mine = some p → p.holds = true → held = true
  right : ∀ q, other = some q → q.holds = true → held = true
  apart : ∀ p q, mine = some p → other = some q → p.holds = true → q.holds = false

/-- A worker finds a valid cache, its arguments are those of its outcome, and the
refresh mutex keeps the critical sections of the two threads apart. -/
structure Runtime.Cached (platform : Platform) (r : Runtime) : Prop where
  sound : r.Sound platform
  alone : r.operation.Alone platform r
  ready : r.operation.CacheReady platform r
  invalid : r.acquisitionStatisticsCacheValid = false → r.acquisitionStatisticsSampleUs = 0
  warm : ∀ pc, r.worker = some pc → pc.isFinished = false →
    r.acquisitionStatisticsCacheValid = true
  forced : ∀ p, r.operation.refreshing = some p → p.Forced true
  evaluates : ∀ pc, r.worker = some pc → pc.Evaluates
  exclusive :
    RefreshExclusive r.refreshing r.operation.refreshing (r.worker.bind WorkerPc.refreshing)

theorem OperationPc.CacheReady.congr {platform : Platform} {r r' : Runtime} {pc : OperationPc}
    (h : pc.CacheReady platform r) (hworker : r'.worker = r.worker)
    (hvalid : r.acquisitionStatisticsCacheValid = true →
      r'.acquisitionStatisticsCacheValid = true) : pc.CacheReady platform r' := by
  cases pc with
  | resetCache | resetCacheAtEnd => exact Runtime.Gone.congr h hworker
  | resetDiagnostics | storeRunning | createWorker => exact hvalid h
  | _ => exact h

theorem OperationPc.CacheReady.beside {platform : Platform} {r r' : Runtime} {pc : OperationPc}
    (h : pc.CacheReady platform r) (hrunning : ¬ r.Gone platform)
    (hvalid : r.acquisitionStatisticsCacheValid = true →
      r'.acquisitionStatisticsCacheValid = true) : pc.CacheReady platform r' := by
  cases pc with
  | resetCache | resetCacheAtEnd => exact absurd h hrunning
  | resetDiagnostics | storeRunning | createWorker => exact hvalid h
  | _ => exact h

namespace RefreshExclusive

variable {held : Bool} {mine other : Option RefreshPc}

theorem symm (h : RefreshExclusive held mine other) : RefreshExclusive held other mine where
  left := h.right
  right := h.left
  apart q p hq hp hholds := by
    by_contra hboth
    simp [h.apart p q hp hq (by simpa using hboth)] at hholds

theorem none_left (h : ∀ q, other = some q → q.holds = true → held = true) :
    RefreshExclusive held none other :=
  ⟨by simp, h, by simp⟩

theorem acquire (h : RefreshExclusive held mine other) (now : UInt64) (force : Bool) :
    RefreshExclusive held (some (.acquire now force)) other := by
  refine ⟨?_, h.right, ?_⟩
  · rintro p ⟨⟩ hholds
    cases hholds
  · rintro p q ⟨⟩ - hholds
    cases hholds

theorem refreshStep {r r' : Runtime} {statistics : AcquisitionStatistics} {p : RefreshPc}
    {p' : Option RefreshPc} (h : RefreshExclusive r.refreshing (some p) other)
    (hstep : r.refreshStep statistics p = some (r', p')) :
    RefreshExclusive r'.refreshing p' other := by
  cases refreshStep_cases hstep with
  | acquire free =>
    refine ⟨fun _ _ _ => rfl, fun _ _ _ => rfl, fun _ q _ hq _ => ?_⟩
    by_contra hholds
    simp [h.right q hq (by simpa using hholds)] at free
  | skip | store =>
    refine none_left fun q hq hholds => ?_
    simp [h.apart _ q rfl hq rfl] at hholds
  | go | query =>
    exact ⟨fun _ _ _ => h.left _ rfl rfl, h.right, fun _ q _ hq _ => h.apart _ q rfl hq rfl⟩

end RefreshExclusive

theorem OperationPc.WorkerKept.exclusive {r r' : Runtime} {pc : OperationPc} {held : Bool}
    {mine : Option RefreshPc} (h : pc.WorkerKept r r')
    (hr : RefreshExclusive held mine (r.worker.bind WorkerPc.refreshing)) :
    RefreshExclusive held mine (r'.worker.bind WorkerPc.refreshing) := by
  rcases h with heq | ⟨-, hnone⟩ | ⟨-, hbegin⟩
  · rwa [heq]
  · rw [hnone]
    exact (RefreshExclusive.none_left hr.left).symm
  · rw [hbegin]
    exact (RefreshExclusive.none_left hr.left).symm

/-- A call begins an operation, or is refused. -/
structure Runtime.Called (platform : Platform) (r : Runtime) (a : Action) (t : Runtime) : Prop where
  events : r.statisticsEvents a = []
  same : r.SameCache t
  worker : t.worker = r.worker
  operation : t.operation = r.operation ∨ r.operation = .idle ∧ t.operation.refreshing = none ∧
    t.operation.Alone platform t ∧ t.operation.CacheReady platform t

theorem Runtime.Called.refused (platform : Platform) {r : Runtime} {a : Action}
    (events : r.statisticsEvents a = []) : r.Called platform a r :=
  ⟨events, r.sameCache_refl, rfl, .inl rfl⟩

theorem Runtime.Called.refreshing {platform : Platform} {r t : Runtime} {a : Action}
    (h : r.Called platform a t) : t.operation.refreshing = r.operation.refreshing := by
  rcases h.operation with heq | ⟨hidle, hnone, -⟩
  · rw [heq]
  · rw [hnone, hidle]
    rfl

/-- Steps that concern neither thread. -/
theorem Runtime.Cached.called {platform : Platform} {r t : Runtime} {a : Action}
    (hr : r.Cached platform) (hsound : t.Sound platform) (h : r.Called platform a t) :
    t.Cached platform where
  sound := hsound
  alone := by
    rcases h.operation with heq | ⟨-, -, halone, -⟩
    · rw [heq]
      exact hr.alone.congr h.worker
    · exact halone
  ready := by
    rcases h.operation with heq | ⟨-, -, -, hready⟩
    · rw [heq]
      exact hr.ready.congr h.worker (by rw [h.same.valid]; exact id)
    · exact hready
  invalid := by
    rw [h.same.valid, h.same.sampleUs]
    exact hr.invalid
  warm pc hpc hrunning := by
    rw [h.same.valid]
    exact hr.warm pc (h.worker ▸ hpc) hrunning
  forced p hp := by
    rcases h.operation with heq | ⟨-, hnone, -⟩
    · exact hr.forced p (heq ▸ hp)
    · simp [hnone] at hp
  evaluates pc hpc := hr.evaluates pc (h.worker ▸ hpc)
  exclusive := by
    rw [h.same.refreshing, h.worker]
    rcases h.operation with heq | ⟨-, hnone, -⟩
    · rw [heq]
      exact hr.exclusive
    · rw [hnone]
      exact RefreshExclusive.none_left hr.exclusive.right

theorem Runtime.Cached.read {platform : Platform} {r : Runtime} (hr : r.Cached platform)
    (now : UInt64) (hsound : (r.updateSilenceDiagnostic now).Sound platform) :
    (r.updateSilenceDiagnostic now).Cached platform := by
  obtain ⟨transport, heq⟩ := Runtime.updateSilenceDiagnostic_eq r now
  rw [heq] at hsound ⊢
  exact ⟨hsound, hr.alone.congr rfl, hr.ready.congr rfl id, hr.invalid, hr.warm, hr.forced,
    hr.evaluates, hr.exclusive⟩

end Telemetry
end VehicleCanCore

import VehicleCanCore.Telemetry.SoleWorker
import VehicleCanCore.Telemetry.StatisticsRefresh

/-!
# What an operation of the runtime waits for

An operation waits for its source, for the refresh mutex, and in `stop()` for the
worker; otherwise each of its steps brings it closer to its return. A worker that is
asked to stop, or that holds the mutex, comes closer to its end in the same way.
-/

namespace VehicleCanCore
namespace Telemetry

/-! ## Distances -/

def RefreshPc.rank : RefreshPc → ℕ
  | acquire _ _ => 4
  | check _ _ => 3
  | query _ => 2
  | store _ _ => 1

def AfterDiagnostic.rank : AfterDiagnostic → ℕ
  | finish _ => 1
  | resetCache _ => 2
  | cleanUp => 12
  | requestStop => 13

/-- Distance of an operation from its return; the destructor is not counted. -/
def OperationPc.rank : OperationPc → ℕ
  | idle => 0
  | finish _ => 1
  | resetCacheAtEnd _ => 2
  | writeDiagnostic _ _ next => next.rank + 1
  | refreshDiagnostic _ _ next pc => next.rank + 1 + pc.rank
  | beginDiagnostic _ _ next => next.rank + 6
  | storeFinal _ => 9
  | awaitWorker _ => 10
  | awaitStop _ | awaitCleanup _ => 11
  | attemptStop _ | cleanUp _ => 12
  | requestStop _ => 13
  | clearWorkerActive => 14
  | createWorker => 15
  | storeRunning => 16
  | resetDiagnostics => 17
  | refresh pc => 17 + pc.rank
  | storeStopping next => next.rank + 7
  | setWorkerActive => 22
  | clearStopRequested => 23
  | awaitStart => 24
  | callStart => 25
  | askRetry => 26
  | resetProcessor => 27
  | resetCache => 28
  | joinWorker | retryCleanup | destroyed => 0

def WorkerPc.rank : WorkerPc → ℕ
  | finished => 0
  | exiting => 1
  | loopHead _ | batchDone _ _ | pause _ | beginPause _ => 2
  | begin | received _ _ _ | completed _ _ | recordPause _ | checkpoint _ _ => 3
  | receive _ | requestStop _ _ => 4
  | afterReceive _ _ | storeFaulted _ _ => 5
  | onDiagnostics _ _ _ => 6
  | onFrameProcessed _ _ _ _ => 7
  | record _ _ _ => 8
  | refresh _ _ _ pc => 8 + pc.rank
  | process _ _ _ => 13

theorem AfterDiagnostic.rank_pc (next : AfterDiagnostic) : next.pc.rank = next.rank := by
  cases next <;> rfl

theorem afterSourceStop_rank (cleanup : ResultCode) (caller : Cleaner) :
    (afterSourceStop cleanup caller).rank ≤ 10 := by
  cases caller with
  | start => simp [afterSourceStop, OperationPc.rank]
  | stop =>
    simp only [afterSourceStop]
    split_ifs <;> simp [OperationPc.rank]
  | destroy final => cases final <;> simp [afterSourceStop, OperationPc.rank]

theorem afterPartialCleanup_rank (cleanup : ResultCode) (caller : Cleaner) :
    (afterPartialCleanup cleanup caller).rank ≤ 9 := by
  cases caller with
  | destroy final => cases final <;> simp [afterPartialCleanup, OperationPc.rank]
  | _ => simp [afterPartialCleanup, OperationPc.rank]

/-! ## Steps -/

theorem refreshStep_advances (r : Runtime) (statistics : AcquisitionStatistics) (p : RefreshPc) :
    (p.holds = false ∧ r.refreshing = true) ∨ ∃ r' p', r.refreshStep statistics p = some (r', p') ∧
      ∀ q, p' = some q → q.rank < p.rank := by
  cases p with
  | acquire now force =>
    by_cases hheld : r.refreshing = true
    · exact .inl ⟨rfl, hheld⟩
    · refine .inr ⟨_, _, if_neg hheld, ?_⟩
      rintro q ⟨⟩
      simp [RefreshPc.rank]
  | check now force =>
    right
    simp only [Runtime.refreshStep]
    split_ifs
    · exact ⟨_, _, rfl, by simp⟩
    · refine ⟨_, _, rfl, ?_⟩
      rintro q ⟨⟩
      simp [RefreshPc.rank]
  | query now =>
    refine .inr ⟨_, _, rfl, ?_⟩
    rintro q ⟨⟩
    simp [RefreshPc.rank]
  | store now answer => exact .inr ⟨_, _, rfl, by simp⟩

/-- What a step of an operation waits for that is not a call on the source. -/
inductive OperationPc.Blocked (platform : Platform) (r : Runtime) : OperationPc → Prop
  | mutex {pc : OperationPc} {p : RefreshPc} (refreshing : pc.refreshing = some p)
    (waits : p.holds = false) (held : r.refreshing = true) : Blocked platform r pc
  | worker {result : ResultCode} (host : platform = .host)
    (running : r.workerGone platform = false) : Blocked platform r (.awaitWorker result)

def SourceEvent.begins : SourceEvent → Bool
  | supportsStopRetry supported => supported
  | start | cleanup _ => true
  | startReturned _ | cleanupReturned _ => false

/-- An operation that is not blocked comes closer to its return with every step,
whatever it is answered, and only begins calls on its source that it may begin. -/
theorem operationStep_advances (platform : Platform) {r : Runtime} {pc : OperationPc}
    (input : OperationInput) (hidle : pc ≠ .idle) (hkept : pc.destroying = false)
    (hwait : ∀ result, pc = .awaitWorker result → input.ok = false)
    (hretry : input.supportsRetry = true) :
    pc.Blocked platform r ∨ ∃ r' pc' es, operationStep platform r input pc = some (r', pc', es) ∧
      pc'.rank < pc.rank ∧
      (pc.waiting = false → ∀ e, .source e ∈ es → e.begins = true) := by
  cases pc with
  | idle => exact absurd rfl hidle
  | joinWorker | retryCleanup | destroyed => cases hkept
  | refresh pc =>
    rcases refreshStep_advances r input.statistics pc with ⟨hwaits, hheld⟩ | ⟨r', p', hstep, hlt⟩
    · exact .inl (.mutex rfl hwaits hheld)
    · refine .inr ⟨_, _, _, by rw [operationStep, hstep]; rfl, ?_, by simp⟩
      cases p' with
      | none => cases pc <;> simp [OperationPc.rank, RefreshPc.rank]
      | some q => simpa [OperationPc.rank] using hlt q rfl
  | refreshDiagnostic lifecycle transport next pc =>
    rcases refreshStep_advances r input.statistics pc with ⟨hwaits, hheld⟩ | ⟨r', p', hstep, hlt⟩
    · exact .inl (.mutex rfl hwaits hheld)
    · refine .inr ⟨_, _, _, by rw [operationStep, hstep]; rfl, ?_, by simp⟩
      cases p' with
      | none => cases pc <;> simp [OperationPc.rank, RefreshPc.rank]
      | some q => simpa [OperationPc.rank] using hlt q rfl
  | awaitStart =>
    right
    simp only [operationStep]
    split_ifs <;> exact ⟨_, _, _, rfl, by simp [OperationPc.rank, AfterDiagnostic.rank],
      by simp [OperationPc.waiting]⟩
  | createWorker =>
    right
    simp only [operationStep]
    split_ifs <;> exact ⟨_, _, _, rfl, by simp [OperationPc.rank], by simp⟩
  | awaitWorker result =>
    cases hgone : r.workerGone platform with
    | true =>
      refine .inr ⟨_, _, _, by rw [operationStep, hgone, if_pos rfl], ?_, by simp⟩
      simp [OperationPc.rank]
    | false =>
      cases platform with
      | host => exact .inl (.worker rfl hgone)
      | esp =>
        refine .inr ⟨r, .finish .timeout, [], ?_, by simp [OperationPc.rank], by simp⟩
        simp [operationStep, hgone, hwait result rfl]
  | requestStop caller =>
    cases caller with
    | destroy => cases hkept
    | _ => exact .inr ⟨_, _, _, rfl, by simp [OperationPc.rank], by simp⟩
  | attemptStop caller =>
    right
    simp only [operationStep]
    cases r.books.beginSourceStop with
    | error result =>
      have hle := afterSourceStop_rank result caller
      exact ⟨_, _, _, rfl, Nat.lt_of_le_of_lt hle (by simp [OperationPc.rank]), by simp⟩
    | ok p => exact ⟨_, _, _, rfl, by simp [OperationPc.rank], by simp [SourceEvent.begins]⟩
  | awaitStop caller =>
    have hle := afterSourceStop_rank (r.books.endSourceStop input.result).2 caller
    exact .inr ⟨_, _, _, rfl, Nat.lt_of_le_of_lt hle (by simp [OperationPc.rank]),
      by simp [OperationPc.waiting]⟩
  | cleanUp caller =>
    right
    simp only [operationStep]
    cases r.books.beginPartialCleanup with
    | error result =>
      have hle := afterPartialCleanup_rank result caller
      exact ⟨_, _, _, rfl, Nat.lt_of_le_of_lt hle (by simp [OperationPc.rank]), by simp⟩
    | ok p => exact ⟨_, _, _, rfl, by simp [OperationPc.rank], by simp [SourceEvent.begins]⟩
  | awaitCleanup caller =>
    have hle := afterPartialCleanup_rank (r.books.endPartialCleanup input.result).2 caller
    exact .inr ⟨_, _, _, rfl, Nat.lt_of_le_of_lt hle (by simp [OperationPc.rank]),
      by simp [OperationPc.waiting]⟩
  | storeFinal e =>
    refine .inr ⟨_, _, _, rfl, ?_, by simp⟩
    split_ifs <;> simp [OperationPc.rank, AfterDiagnostic.rank]
  | writeDiagnostic lifecycle transport next =>
    refine .inr ⟨_, _, _, rfl, ?_, by simp⟩
    rw [next.rank_pc]
    exact Nat.lt_succ_self _
  | askRetry => exact .inr ⟨_, _, _, rfl, by simp [OperationPc.rank],
      by simp [SourceEvent.begins, hretry]⟩
  | _ => exact .inr ⟨_, _, _, rfl, by simp [OperationPc.rank, RefreshPc.rank],
      by simp [SourceEvent.begins]⟩

theorem operationStep_returns {platform : Platform} {r r' : Runtime} {input : OperationInput}
    {pc pc' : OperationPc} {es : List Event} (hwaiting : pc.waiting = true)
    (h : operationStep platform r input pc = some (r', pc', es)) :
    es = [.source (.startReturned input.result)] ∨
      es = [.source (.cleanupReturned input.result)] := by
  cases pc with
  | awaitStart =>
    simp only [operationStep] at h
    split_ifs at h <;> cases h <;> exact .inl rfl
  | awaitStop | awaitCleanup =>
    cases h
    exact .inr rfl
  | _ => cases hwaiting

theorem operationStep_idle {platform : Platform} {r r' : Runtime} {input : OperationInput}
    {pc : OperationPc} {es : List Event}
    (h : operationStep platform r input pc = some (r', .idle, es)) :
    ∃ result, es = [.returned result] := by
  have hcleaned {pc : OperationPc} (hafter : pc.AfterCleanup) : pc ≠ .idle := by
    rintro rfl
    cases hafter
  have hdestroys (final : Bool) (ownership : SourceOwnership) {pc : OperationPc}
      (hpc : pc ≠ .idle) : destroyBy final pc ownership ≠ .idle :=
    destroyBy_of (P := fun pc => pc ≠ .idle) hpc (by simp) (by simp)
  cases pc with
  | idle | destroyed => cases h
  | finish result =>
    cases h
    exact ⟨result, rfl⟩
  | refresh pc | refreshDiagnostic lifecycle transport next pc =>
    simp only [operationStep, Option.map_eq_some_iff, Prod.exists, Prod.mk.injEq] at h
    obtain ⟨_, p', -, -, hidle, -⟩ := h
    cases p' <;> cases hidle
  | awaitStart | createWorker | awaitWorker | joinWorker =>
    simp only [operationStep] at h
    split_ifs at h <;> cases h
  | attemptStop caller =>
    simp only [operationStep] at h
    split at h <;> simp only [Option.some.injEq, Prod.mk.injEq] at h
    · exact absurd h.2.1 (hcleaned (afterSourceStop_afterCleanup _ caller))
    · cases h.2.1
  | awaitStop caller =>
    simp only [operationStep, Option.some.injEq, Prod.mk.injEq] at h
    exact absurd h.2.1 (hcleaned (afterSourceStop_afterCleanup _ caller))
  | cleanUp caller =>
    simp only [operationStep] at h
    split at h <;> simp only [Option.some.injEq, Prod.mk.injEq] at h
    · exact absurd h.2.1 (hcleaned (afterPartialCleanup_afterCleanup _ caller))
    · cases h.2.1
  | awaitCleanup caller =>
    simp only [operationStep, Option.some.injEq, Prod.mk.injEq] at h
    exact absurd h.2.1 (hcleaned (afterPartialCleanup_afterCleanup _ caller))
  | requestStop caller =>
    simp only [operationStep, Option.some.injEq, Prod.mk.injEq] at h
    cases caller with
    | destroy final => exact absurd h.2.1 (hdestroys final _ (by simp))
    | _ => cases h.2.1
  | retryCleanup =>
    simp only [operationStep, Option.some.injEq, Prod.mk.injEq] at h
    obtain ⟨-, hidle, -⟩ := h
    split_ifs at hidle
    exact absurd hidle (hdestroys true _ (by simp))
  | writeDiagnostic lifecycle transport next =>
    simp only [operationStep, Option.some.injEq, Prod.mk.injEq] at h
    cases next <;> cases h.2.1
  | _ => cases h

/-- A worker that is to stop, or is inside a refresh, waits for the mutex or for the
answer of `receive`, and otherwise comes closer to its end. -/
theorem workerStep_advances {r : Runtime} {pc : WorkerPc} (input : WorkerInput)
    (hrunning : pc.isFinished = false)
    (hstop : r.stopRequested = true ∨ ∃ p, pc.refreshing = some p ∧ p.holds = true) :
    (∃ p, pc.refreshing = some p ∧ p.holds = false ∧ r.refreshing = true) ∨
      ∃ r' pc' es, workerStep r input pc = some (r', pc', es) ∧ pc'.rank < pc.rank := by
  by_cases hrefresh : ∃ budget outcome time p, pc = .refresh budget outcome time p
  · obtain ⟨budget, outcome, time, p, rfl⟩ := hrefresh
    rcases refreshStep_advances r input.statistics p with ⟨hwaits, hheld⟩ | ⟨r', p', hstep, hlt⟩
    · exact .inl ⟨p, rfl, hwaits, hheld⟩
    · refine .inr ⟨_, _, _, by rw [workerStep, hstep]; rfl, ?_⟩
      cases p' with
      | none => cases p <;> simp [WorkerPc.rank, RefreshPc.rank]
      | some q => simpa [WorkerPc.rank] using hlt q rfl
  replace hstop : r.stopRequested = true := by
    refine hstop.resolve_right ?_
    rintro ⟨p, hp, -⟩
    cases pc with
    | refresh budget outcome time p => exact hrefresh ⟨_, _, _, _, rfl⟩
    | _ => cases hp
  right
  cases pc with
  | finished => cases hrunning
  | refresh budget outcome time p => exact absurd ⟨_, _, _, _, rfl⟩ hrefresh
  | record budget outcome time =>
    refine ⟨_, _, _, rfl, ?_⟩
    cases outcome <;> simp [WorkerPc.rank]
  | onDiagnostics budget outcome snapshot =>
    refine ⟨_, _, _, rfl, ?_⟩
    split_ifs <;> simp [WorkerPc.rank]
  | afterReceive budget outcome =>
    simp only [workerStep]
    split <;> exact ⟨_, _, _, rfl, by simp [WorkerPc.rank]⟩
  | checkpoint budget action =>
    refine ⟨_, _, _, rfl, ?_⟩
    split_ifs <;> simp [WorkerPc.rank]
  | received budget received time =>
    exact ⟨_, _, _, if_pos hstop, by simp [WorkerPc.rank]⟩
  | loopHead | completed | batchDone | beginPause | pause =>
    exact ⟨_, _, _, rfl, by rw [if_pos hstop]; simp [WorkerPc.rank]⟩
  | _ => exact ⟨_, _, _, rfl, by simp [WorkerPc.rank, RefreshPc.rank]⟩

/-! ## The refresh mutex -/

/-- A mutex that is held is held by the operation or by the worker. -/
def Runtime.Held (r : Runtime) : Prop :=
  r.refreshing = true → (∃ p, r.operation.refreshing = some p ∧ p.holds = true) ∨
    ∃ p, r.worker.bind WorkerPc.refreshing = some p ∧ p.holds = true

theorem refreshStep_holds {r r' : Runtime} {statistics : AcquisitionStatistics} {p : RefreshPc}
    {p' : Option RefreshPc} (h : r.refreshStep statistics p = some (r', p'))
    (hheld : r'.refreshing = true) : ∃ q, p' = some q ∧ q.holds = true := by
  cases refreshStep_cases h with
  | skip | store => cases hheld
  | acquire | go | query => exact ⟨_, rfl, rfl⟩

theorem WorkerPc.running_of_refreshing {pc : WorkerPc} {p : RefreshPc}
    (h : pc.refreshing = some p) : pc.isFinished = false := by
  cases pc <;> first | rfl | cases h

theorem operationStep_held {platform : Platform} {r r' : Runtime} {input : OperationInput}
    {pc : OperationPc} {es : List Event} (hr : r.Sound platform) (hheld : r.Held)
    (h : operationStep platform r input r.operation = some (r', pc, es)) :
    ({ r' with operation := pc } : Runtime).Held := by
  intro hnow
  have hworker (hidle : r.operation.refreshing = none) (hsame : r'.refreshing = r.refreshing) :
      ∃ p, r'.worker.bind WorkerPc.refreshing = some p ∧ p.holds = true := by
    rcases hheld (hsame.symm.trans hnow) with ⟨p, hp, -⟩ | ⟨p, hp, hholds⟩
    · rw [hidle] at hp
      cases hp
    · obtain ⟨q, hq, hrefresh⟩ := Option.bind_eq_some_iff.mp hp
      have hworking : r.Working := ⟨q, hq, WorkerPc.running_of_refreshing hrefresh⟩
      rcases operationStep_staff hr.owned h with ⟨hkept, -⟩ | ⟨hended, -⟩
      · exact ⟨p, by rw [hkept, hp], hholds⟩
      · exact absurd hworking hended
  cases operationStep_cacheEffect h with
  | refreshes active events refresh after =>
    obtain ⟨q, rfl, hholds⟩ := refreshStep_holds refresh hnow
    exact .inl ⟨q, after, hholds⟩
  | samples idle events same worker after => exact .inr (hworker idle same.refreshing)
  | forgets idle events kind eq after => exact .inr (hworker idle (by rw [eq]; rfl))
  | shows idle events eq current after => exact .inr (hworker idle (by rw [eq]))
  | spares idle events same worker after => exact .inr (hworker idle same.refreshing)

theorem workerStep_held {r r' : Runtime} {input : WorkerInput} {pc pc' : WorkerPc}
    {es : List Event} (hheld : r.Held) (hpc : r.worker = some pc)
    (h : workerStep r input pc = some (r', pc', es)) :
    ({ r' with worker := some pc' } : Runtime).Held := by
  intro hnow
  have hoperation (hidle : pc.refreshing = none) (hsame : r'.refreshing = r.refreshing) :
      ∃ p, r'.operation.refreshing = some p ∧ p.holds = true := by
    rw [(workerStep_effect h).operation]
    refine (hheld (hsame.symm.trans hnow)).resolve_right ?_
    rintro ⟨p, hp, -⟩
    rw [hpc, Option.bind_some, hidle] at hp
    cases hp
  cases workerStep_cacheEffect h with
  | refreshes before refresh after =>
    obtain ⟨q, rfl, hholds⟩ := refreshStep_holds refresh hnow
    exact .inr ⟨q, by rw [after]; rfl, hholds⟩
  | receives eq events before after => exact .inl (hoperation before (by rw [eq]))
  | evaluates eq events before after => exact .inl (hoperation before (by rw [eq]))
  | records before eq current events refreshing time =>
    exact .inl (hoperation (by rw [before]; rfl) (by rw [eq]))
  | spares same events before refreshing recording time =>
    exact .inl (hoperation before same.refreshing)

theorem step_held {platform : Platform} {r t : Runtime} {a : Action} {es : List Event}
    (hr : r.Sound platform) (hheld : r.Held) (h : step platform r a = some (t, es)) : t.Held := by
  have hidle (hidle : r.operation = .idle) (hnow : r.refreshing = true) :
      ∃ p, r.worker.bind WorkerPc.refreshing = some p ∧ p.holds = true := by
    refine (hheld hnow).resolve_left ?_
    rintro ⟨p, hp, -⟩
    rw [hidle] at hp
    cases hp
  cases step_cases h with
  | configure | refused => exact hheld
  | start free stopped usable valid => exact fun hnow => .inr (hidle (hr.idle free usable) hnow)
  | stop free owned usable begins => exact fun hnow => .inr (hidle (hr.idle free usable) hnow)
  | destroy idle => exact fun hnow => .inr (hidle idle hnow)
  | operation hop => exact operationStep_held hr hheld hop
  | worker active hworker => exact workerStep_held hheld active hworker
  | @read now usable =>
    obtain ⟨transport, heq⟩ := Runtime.updateSilenceDiagnostic_eq r now
    rw [heq]
    exact hheld

/-! ## The destructor -/

theorem afterSourceStop_kept {cleanup : ResultCode} {caller : Cleaner}
    (hcaller : ∀ final, caller ≠ .destroy final) :
    (afterSourceStop cleanup caller).destroying = false := by
  cases caller with
  | start => rfl
  | stop =>
    simp only [afterSourceStop]
    split_ifs <;> rfl
  | destroy final => exact absurd rfl (hcaller final)

theorem afterPartialCleanup_kept {cleanup : ResultCode} {caller : Cleaner}
    (hcaller : ∀ final, caller ≠ .destroy final) :
    (afterPartialCleanup cleanup caller).destroying = false := by
  cases caller with
  | start | stop => rfl
  | destroy final => exact absurd rfl (hcaller final)

theorem operationStep_kept {platform : Platform} {r r' : Runtime} {input : OperationInput}
    {pc pc' : OperationPc} {es : List Event} (hkept : pc.destroying = false)
    (h : operationStep platform r input pc = some (r', pc', es)) : pc'.destroying = false := by
  have hcaller {caller : Cleaner} (hpc : pc = .attemptStop caller ∨ pc = .awaitStop caller ∨
      pc = .cleanUp caller ∨ pc = .awaitCleanup caller) (final : Bool) :
      caller ≠ .destroy final := by
    rintro rfl
    rcases hpc with rfl | rfl | rfl | rfl <;> cases hkept
  cases pc with
  | idle => cases h
  | joinWorker | retryCleanup | destroyed => cases hkept
  | refresh pc | refreshDiagnostic lifecycle transport next pc =>
    simp only [operationStep, Option.map_eq_some_iff, Prod.exists] at h
    obtain ⟨_, pc'', -, heq⟩ := h
    cases heq
    cases pc'' <;> rfl
  | awaitStart | createWorker | awaitWorker =>
    simp only [operationStep] at h
    split_ifs at h <;> cases h <;> rfl
  | requestStop caller =>
    cases h
    cases caller with
    | destroy => cases hkept
    | _ => rfl
  | attemptStop caller =>
    simp only [operationStep] at h
    split at h <;> cases h
    · exact afterSourceStop_kept (hcaller (.inl rfl))
    · cases caller <;> first | rfl | cases hkept
  | cleanUp caller =>
    simp only [operationStep] at h
    split at h <;> cases h
    · exact afterPartialCleanup_kept (hcaller (.inr (.inr (.inl rfl))))
    · cases caller <;> first | rfl | cases hkept
  | awaitStop caller =>
    cases h
    exact afterSourceStop_kept (hcaller (.inr (.inl rfl)))
  | awaitCleanup caller =>
    cases h
    exact afterPartialCleanup_kept (hcaller (.inr (.inr (.inr rfl))))
  | storeFinal e =>
    cases h
    rfl
  | writeDiagnostic lifecycle transport next =>
    cases h
    cases next <;> rfl
  | _ =>
    cases h
    rfl

theorem step_kept {platform : Platform} {r t : Runtime} {a : Action} {es : List Event}
    (ha : a ≠ .destroy) (hkept : r.operation.destroying = false)
    (h : step platform r a = some (t, es)) : t.operation.destroying = false := by
  cases step_cases h with
  | configure | refused => exact hkept
  | start => rfl
  | stop free owned usable begins =>
    rcases begins with ⟨-, rfl⟩ | ⟨-, ⟨-, rfl⟩ | ⟨-, rfl⟩⟩ <;> rfl
  | destroy => exact absurd rfl ha
  | operation hop => exact operationStep_kept hkept hop
  | worker active hworker =>
    have hsame := (workerStep_effect hworker).operation
    exact (congrArg OperationPc.destroying hsame).trans hkept
  | @read now usable =>
    obtain ⟨transport, heq⟩ := Runtime.updateSilenceDiagnostic_eq r now
    rw [heq]
    exact hkept

end Telemetry
end VehicleCanCore

import VehicleCanCore.Telemetry.SourceProtocol

/-!
# The terminal fault in the diagnostics

A terminal outcome is written to the diagnostics record before the observer's
callbacks, and to the atomic lifecycle after them. In between the silence rule
still takes the runtime for running.
-/

namespace VehicleCanCore
namespace Telemetry

open Automata

def TransportDiagnostics.showsFault (d : TransportDiagnostics) : Bool :=
  d.lifecycle = .faulted && d.transport = .faulted

/-- Recording a terminal outcome latches the fault for all readers. The latch is
released when a call begins, or when a call that is already under way writes its
own state to the record. -/
def faultLatch : Acceptor Bool Event where
  next latched
    | .recorded outcome => some (latched || outcome.terminal)
    | .called | .lifecycleRecorded => some false
    | .read d | .diagnosed d => if latched && !d.showsFault then none else some latched
    | _ => some latched

/-- No reader evaluates an expired silence while the fault is recorded and the
lifecycle is still running. -/
def ReadsInTime (r : Runtime) : Action → Prop
  | .diagnostics now =>
    ¬(r.diagnostics.lifecycle = .faulted ∧ r.lifecycle = .running ∧ r.silenceDue now = true)
  | _ => True

instance (r : Runtime) : DecidablePred (ReadsInTime r)
  | .diagnostics _ => inferInstanceAs (Decidable (¬_))
  | .configure _ | .start | .stop _ | .destroy | .operation _ | .worker _ => isTrue trivial

/-! ## A worker with a terminal outcome -/

/-- On its way out, with the fault in every snapshot that it still holds. -/
def WorkerPc.Terminated (stopRequested : Bool) : WorkerPc → Prop
  | onFrameProcessed _ _ result snapshot => result = .fault ∧ snapshot.showsFault = true
  | onDiagnostics _ outcome snapshot => outcome.terminal = true ∧ snapshot.showsFault = true
  | storeFaulted _ _ | requestStop _ _ | finished => True
  | completed _ _ | batchDone _ _ | exiting => stopRequested = true
  | _ => False

def OperationPc.starting : OperationPc → Bool
  | resetCache | resetProcessor | askRetry | callStart | awaitStart | clearStopRequested
  | setWorkerActive | refresh _ | resetDiagnostics | storeRunning | createWorker => true
  | _ => false

structure Runtime.Latched (r : Runtime) : Prop where
  record : r.diagnostics.showsFault = true
  worker : ∀ pc, r.worker = some pc → pc.Terminated r.stopRequested
  operation : r.operation.starting = false

theorem WorkerPc.Terminated.stopRequested {pc : WorkerPc} {stop : Bool} (h : pc.Terminated stop) :
    pc.Terminated true := by
  cases pc with
  | completed | batchDone | exiting => rfl
  | _ => exact h

theorem OperationPc.Owned.not_starting {platform : Platform} {r : Runtime} {pc : OperationPc}
    (h : pc.Owned platform r) (hrunning : ¬ r.Gone platform) : pc.starting = false := by
  cases pc with
  | resetCache | resetProcessor | askRetry | callStart | awaitStart =>
    exact absurd h.1.2 hrunning
  | clearStopRequested | setWorkerActive | refresh | resetDiagnostics | storeRunning
  | createWorker => exact absurd h.2.1 hrunning
  | _ => rfl

/-! ## The latch along a step -/

section

variable {platform : Platform} {r r' : Runtime} {es : List Event} {latched : Bool}

theorem accept_open (h : ∀ e ∈ es, ∀ outcome, e ≠ .recorded outcome) :
    faultLatch.accept false es = some false := by
  induction es with
  | nil => rfl
  | cons e es ih =>
    have hnext : faultLatch.next false e = some false := by
      cases e with
      | recorded outcome => exact absurd rfl (h (.recorded outcome) (by simp) outcome)
      | _ => rfl
    rw [faultLatch.accept_cons, hnext]
    exact ih fun e he => h e (by simp [he])

theorem recordOutcome_showsFault (r : Runtime) {outcome : Outcome} (h : outcome.terminal = true)
    (time : UInt64) : (r.recordOutcome outcome time).diagnostics.showsFault = true := by
  cases outcome with
  | frame f result =>
    cases result with
    | fault => rfl
    | _ => cases h
  | timeout => cases h
  | fault | notStarted => rfl

theorem workerStep_recorded {input : WorkerInput} {pc pc' : WorkerPc} {outcome : Outcome}
    (hstep : workerStep r input pc = some (r', pc', es)) (hrecorded : .recorded outcome ∈ es) :
    ∃ budget time, pc = .record budget outcome time := by
  cases pc with
  | record budget outcome' time =>
    obtain ⟨d, heq⟩ := Runtime.recordOutcome_eq r outcome' time
    simp only [workerStep, heq] at hstep
    cases outcome' <;> cases hstep <;> simp at hrecorded <;> subst hrecorded <;>
      exact ⟨budget, time, rfl⟩
  | finished => cases hstep
  | refresh budget outcome' time pc =>
    simp only [workerStep, Option.map_eq_some_iff, Prod.exists] at hstep
    obtain ⟨r'', pc'', -, heq⟩ := hstep
    cases heq
    simp at hrecorded
  | received budget received time =>
    simp only [workerStep] at hstep
    split_ifs at hstep
    · cases hstep
      simp at hrecorded
    · cases received <;> cases hstep <;> simp at hrecorded
  | afterReceive =>
    simp only [workerStep] at hstep
    split at hstep <;> cases hstep <;> simp at hrecorded
  | _ =>
    cases hstep
    simp at hrecorded

/-- A terminal outcome closes the latch and leaves the fault in the snapshot. -/
theorem workerStep_closes {input : WorkerInput} {budget : WorkBudget} {outcome : Outcome}
    {time : UInt64} {pc' : WorkerPc}
    (hstep : workerStep r input (.record budget outcome time) = some (r', pc', es)) :
    faultLatch.accept false es = some outcome.terminal ∧
      (outcome.terminal = true →
        r'.diagnostics.showsFault = true ∧ pc'.Terminated r'.stopRequested) := by
  have hshows (hterminal : outcome.terminal = true) :
      (r.recordOutcome outcome time).diagnostics.showsFault = true :=
    recordOutcome_showsFault r hterminal time
  simp only [workerStep, Option.some.injEq, Prod.mk.injEq] at hstep
  obtain ⟨rfl, rfl, rfl⟩ := hstep
  refine ⟨by simp [faultLatch], fun hterminal => ⟨hshows hterminal, ?_⟩⟩
  cases outcome with
  | frame f result =>
    refine ⟨?_, hshows hterminal⟩
    cases result with
    | fault => rfl
    | _ => cases hterminal
  | timeout => cases hterminal
  | fault | notStarted => exact ⟨hterminal, hshows hterminal⟩

theorem workerStep_terminated {input : WorkerInput} {pc pc' : WorkerPc}
    (hrecord : r.diagnostics.showsFault = true) (h : pc.Terminated r.stopRequested)
    (hstep : workerStep r input pc = some (r', pc', es)) :
    faultLatch.accept true es = some true ∧ r'.diagnostics.showsFault = true ∧
      pc'.Terminated r'.stopRequested := by
  cases pc with
  | finished => cases hstep
  | onFrameProcessed budget f result snapshot =>
    obtain ⟨rfl, hsnapshot⟩ := h
    cases hstep
    exact ⟨rfl, hrecord, rfl, hsnapshot⟩
  | onDiagnostics budget outcome snapshot =>
    obtain ⟨hterminal, hsnapshot⟩ := h
    cases hstep
    refine ⟨by simp [faultLatch, hsnapshot], hrecord, ?_⟩
    rw [if_pos hterminal]
    trivial
  | storeFaulted | exiting =>
    cases hstep
    exact ⟨rfl, hrecord, trivial⟩
  | requestStop =>
    cases hstep
    exact ⟨rfl, hrecord, rfl⟩
  | completed | batchDone =>
    have hstop : r.stopRequested = true := h
    cases hstep
    refine ⟨rfl, hrecord, ?_⟩
    rw [if_pos hstop]
    exact hstop
  | _ => exact absurd h id

theorem workerStep_latch {input : WorkerInput} {pc pc' : WorkerPc}
    (h : latched = true → r.diagnostics.showsFault = true ∧ pc.Terminated r.stopRequested)
    (hstep : workerStep r input pc = some (r', pc', es)) :
    ∃ latched', faultLatch.accept latched es = some latched' ∧
      (latched' = true → r'.diagnostics.showsFault = true ∧ pc'.Terminated r'.stopRequested) := by
  cases latched with
  | true =>
    obtain ⟨haccept, hterminated⟩ := workerStep_terminated (h rfl).1 (h rfl).2 hstep
    exact ⟨true, haccept, fun _ => hterminated⟩
  | false =>
    by_cases hrecorded : ∃ outcome, .recorded outcome ∈ es
    · obtain ⟨outcome, hmem⟩ := hrecorded
      obtain ⟨budget, time, rfl⟩ := workerStep_recorded hstep hmem
      exact ⟨outcome.terminal, workerStep_closes hstep⟩
    · refine ⟨false, accept_open ?_, by simp⟩
      intro e he outcome heq
      exact hrecorded ⟨outcome, heq ▸ he⟩

theorem operationStep_unrecorded {input : OperationInput} {pc pc' : OperationPc}
    (hstep : operationStep platform r input pc = some (r', pc', es)) :
    ∀ e ∈ es, ∀ outcome, e ≠ .recorded outcome := by
  cases pc with
  | idle | destroyed => cases hstep
  | refresh pc | refreshDiagnostic _ _ _ pc =>
    simp only [operationStep, Option.map_eq_some_iff, Prod.exists] at hstep
    obtain ⟨r'', pc'', -, heq⟩ := hstep
    cases heq
    simp
  | awaitStart | createWorker | awaitWorker | joinWorker =>
    simp only [operationStep] at hstep
    split_ifs at hstep <;> cases hstep <;> simp
  | attemptStop | cleanUp =>
    simp only [operationStep] at hstep
    split at hstep <;> cases hstep <;> simp
  | _ =>
    cases hstep
    simp

theorem OperationPc.AfterCleanup.not_starting {pc : OperationPc} (h : pc.AfterCleanup) :
    pc.starting = false := by
  cases h <;> rfl

/-- Of all steps of an operation that is past the creation of the worker only its
own diagnostic touches the record. -/
theorem operationStep_latched {input : OperationInput} {pc pc' : OperationPc}
    (hrecord : r.diagnostics.showsFault = true)
    (hworker : ∀ wpc, r.worker = some wpc → wpc.Terminated r.stopRequested)
    (hpc : pc.starting = false) (hstep : operationStep platform r input pc = some (r', pc', es)) :
    faultLatch.accept true es = some false ∨
      (faultLatch.accept true es = some true ∧ r'.diagnostics.showsFault = true ∧
        (∀ wpc, r'.worker = some wpc → wpc.Terminated r'.stopRequested) ∧
        pc'.starting = false) := by
  have hjoin : (r.join platform).diagnostics.showsFault = true ∧
      ∀ wpc, (r.join platform).worker = some wpc →
        wpc.Terminated (r.join platform).stopRequested := by
    cases platform with
    | host => exact ⟨hrecord, by simp [Runtime.join]⟩
    | esp => exact ⟨hrecord, hworker⟩
  cases pc with
  | idle | destroyed => cases hstep
  | resetCache | resetProcessor | askRetry | callStart | awaitStart | clearStopRequested
  | setWorkerActive | refresh | resetDiagnostics | storeRunning | createWorker => cases hpc
  | writeDiagnostic =>
    cases hstep
    exact .inl rfl
  | requestStop caller =>
    cases hstep
    refine .inr ⟨rfl, hrecord, fun wpc hwpc => (hworker wpc hwpc).stopRequested, ?_⟩
    cases caller with
    | start | stop => rfl
    | destroy final => exact destroyBy_of (P := fun pc => pc.starting = false) rfl rfl rfl
  | attemptStop =>
    simp only [operationStep] at hstep
    split at hstep <;> cases hstep
    · exact .inr ⟨rfl, hrecord, hworker, (afterSourceStop_afterCleanup _ _).not_starting⟩
    · exact .inr ⟨rfl, hrecord, hworker, rfl⟩
  | cleanUp =>
    simp only [operationStep] at hstep
    split at hstep <;> cases hstep
    · exact .inr ⟨rfl, hrecord, hworker, (afterPartialCleanup_afterCleanup _ _).not_starting⟩
    · exact .inr ⟨rfl, hrecord, hworker, rfl⟩
  | awaitStop =>
    cases hstep
    exact .inr ⟨rfl, hrecord, hworker, (afterSourceStop_afterCleanup _ _).not_starting⟩
  | awaitCleanup =>
    cases hstep
    exact .inr ⟨rfl, hrecord, hworker, (afterPartialCleanup_afterCleanup _ _).not_starting⟩
  | refreshDiagnostic lifecycle transport next pc =>
    simp only [operationStep, Option.map_eq_some_iff, Prod.exists] at hstep
    obtain ⟨r'', pc'', hrefresh, heq⟩ := hstep
    obtain ⟨_, _, _, _, rfl⟩ := Runtime.refreshStep_eq hrefresh
    cases heq
    exact .inr ⟨rfl, hrecord, hworker, by cases pc'' <;> rfl⟩
  | awaitWorker | joinWorker =>
    simp only [operationStep] at hstep
    split_ifs at hstep <;> cases hstep
    all_goals first
      | exact .inr ⟨rfl, hjoin.1, hjoin.2, rfl⟩
      | exact .inr ⟨rfl, hrecord, hworker, rfl⟩
  | retryCleanup =>
    cases hstep
    refine .inr ⟨rfl, hrecord, hworker, ?_⟩
    split_ifs
    · exact destroyBy_of (P := fun pc => pc.starting = false) rfl rfl rfl
    · rfl
  | _ =>
    cases hstep
    exact .inr ⟨rfl, hrecord, hworker, rfl⟩

end

/-! ## All threads together -/

def Runtime.InLatch (platform : Platform) (r : Runtime) (latched : Bool) : Prop :=
  r.Sound platform ∧ (latched = true → r.Latched)

/-- A reader of a closed latch that comes in time leaves the record alone. -/
theorem updateSilenceDiagnostic_latched {r : Runtime} {now : UInt64}
    (hrecord : r.diagnostics.showsFault = true) :
    (r.updateSilenceDiagnostic now).diagnostics.showsFault = true ↔
      ¬(r.lifecycle = .running ∧ r.silenceDue now = true) := by
  unfold Runtime.updateSilenceDiagnostic
  split_ifs with hdue
  · simp only [Bool.and_eq_true, decide_eq_true_eq] at hdue
    simp [TransportDiagnostics.showsFault, hdue]
  · simpa [hrecord] using hdue

theorem step_latch {platform : Platform} {r t : Runtime} {a : Action} {es : List Event}
    {latched : Bool} (hr : r.Sound platform) (h : latched = true → r.Latched)
    (hC : ReadsInTime r a) (hstep : step platform r a = some (t, es)) :
    ∃ latched', faultLatch.accept latched es = some latched' ∧ (latched' = true → t.Latched) := by
  cases step_cases hstep with
  | configure => exact ⟨latched, rfl, fun hl => ⟨(h hl).record, (h hl).worker, (h hl).operation⟩⟩
  | refused | start | stop => exact ⟨false, rfl, by simp⟩
  | destroy idle => exact ⟨latched, rfl, fun hl => ⟨(h hl).record, (h hl).worker, rfl⟩⟩
  | operation hop =>
    cases latched with
    | false => exact ⟨false, accept_open (operationStep_unrecorded hop), by simp⟩
    | true =>
      obtain ⟨hrecord, hworker, hpc⟩ := h rfl
      rcases operationStep_latched hrecord hworker hpc hop with hopen | ⟨hclosed, hlatched⟩
      · exact ⟨false, hopen, by simp⟩
      · exact ⟨true, hclosed, fun _ => ⟨hlatched.1, hlatched.2.1, hlatched.2.2⟩⟩
  | worker active hworker =>
    have heffect := workerStep_effect hworker
    obtain ⟨latched', haccept, hlatched⟩ :=
      workerStep_latch (fun hl => ⟨(h hl).record, (h hl).worker _ active⟩) hworker
    refine ⟨latched', haccept, fun hl => ⟨(hlatched hl).1, ?_, ?_⟩⟩
    · intro pc hpc
      cases hpc
      exact (hlatched hl).2
    · simp only [heffect.operation]
      exact hr.owned.not_starting (Runtime.Gone.not_running active heffect.running)
  | @read now usable =>
    obtain ⟨transport, heq⟩ := Runtime.updateSilenceDiagnostic_eq r now
    cases latched with
    | false => exact ⟨false, rfl, by simp⟩
    | true =>
      obtain ⟨hrecord, hworker, hpc⟩ := h rfl
      have hfaulted : r.diagnostics.lifecycle = .faulted := by
        simp only [TransportDiagnostics.showsFault, Bool.and_eq_true, decide_eq_true_eq] at hrecord
        exact hrecord.1
      have hshows : (r.updateSilenceDiagnostic now).diagnostics.showsFault = true :=
        (updateSilenceDiagnostic_latched hrecord).mpr fun hdue => hC ⟨hfaulted, hdue⟩
      refine ⟨true, by simp [faultLatch, hshows], fun _ => ⟨hshows, ?_, ?_⟩⟩
      · rw [heq]
        exact hworker
      · rw [heq]
        exact hpc

theorem simulates_faultLatch (platform : Platform) :
    (machine platform).SimulatesAlong faultLatch some ReadsInTime (Runtime.InLatch platform) := by
  intro r a t es latched hR hC hstep
  obtain ⟨latched', haccept, hlatched⟩ := step_latch hR.1 hR.2 hC hstep
  exact ⟨latched', by rwa [List.filterMap_some], step_sound hR.1 hstep, hlatched⟩

/-- While the fault is latched, every snapshot that a reader or the observer gets
shows it, provided that no reader evaluates an expired silence before the atomic
lifecycle is faulted as well. Of the next read this is the exact condition. -/
theorem fault_latched {platform : Platform} {r : Runtime} {as : List Action} {es : List Event}
    (hC : (machine platform).Along ReadsInTime {} as)
    (hrun : (machine platform).run {} as = some (r, es)) :
    ∃ latched, faultLatch.accept false es = some latched ∧
      (latched = true → r.diagnostics.showsFault = true ∧
        ∀ now, (r.updateSilenceDiagnostic now).diagnostics.showsFault = true ↔
          ReadsInTime r (.diagnostics now)) := by
  have hinit : ({} : Runtime).InLatch platform false := ⟨sound_init platform, by simp⟩
  obtain ⟨latched, haccept, hr, hlatched⟩ :=
    (simulates_faultLatch platform).accept_run hinit hC hrun
  rw [List.filterMap_some] at haccept
  refine ⟨latched, haccept, fun hl => ⟨(hlatched hl).record, fun now => ?_⟩⟩
  have hrecord := (hlatched hl).record
  have hfaulted : r.diagnostics.lifecycle = .faulted := by
    simp only [TransportDiagnostics.showsFault, Bool.and_eq_true, decide_eq_true_eq] at hrecord
    exact hrecord.1
  rw [updateSilenceDiagnostic_latched hrecord]
  simp [ReadsInTime, hfaulted]

/-- The source faults two seconds after a frame; one reader comes before the
observer's callback, another one after the lifecycle is faulted. -/
def sourceFaultSchedule (early late : UInt64) : List Action :=
  let operation (n : ℕ) : List Action := List.replicate n (.operation {})
  let worker (n : ℕ) : List Action := List.replicate n (.worker {})
  [.start] ++ operation 15 ++ worker 2 ++ [.worker { received := .frame {} }] ++ worker 9 ++
    [.worker { received := .fault, now := 2000000 }] ++ worker 6 ++ [.diagnostics early] ++
    worker 3 ++ [.diagnostics late]

/-- The snapshots of a run, with its recorded outcomes. -/
def Event.latchView : Event → Option (Outcome ⊕ (LifecycleState × TransportHealth))
  | .recorded outcome => some (.inl outcome)
  | .read d | .diagnosed d => some (.inr (d.lifecycle, d.transport))
  | _ => none

theorem fault_latched_source_fault : ∃ r es,
    (machine .host).run {} (sourceFaultSchedule 999999 5000000) = some (r, es) ∧
      es.filterMap Event.latchView = [.inl (.frame {} .processed), .inr (.running, .live),
        .inl .fault, .inr (.faulted, .faulted), .inr (.faulted, .faulted),
        .inr (.faulted, .faulted)] ∧
      faultLatch.accept false es = some true ∧ r.diagnostics.showsFault = true := by
  have hobserved : ((machine .host).run {} (sourceFaultSchedule 999999 5000000)).map (fun p =>
      (faultLatch.accept false p.2, p.2.filterMap Event.latchView)) =
      some (some true, [.inl (.frame {} .processed), .inr (.running, .live), .inl .fault,
        .inr (.faulted, .faulted), .inr (.faulted, .faulted), .inr (.faulted, .faulted)]) := by
    decide +kernel
  have hC : (machine .host).Along ReadsInTime {} (sourceFaultSchedule 999999 5000000) := by
    decide +kernel
  obtain ⟨⟨r, es⟩, hrun, heq⟩ := Option.map_eq_some_iff.mp hobserved
  simp only [Prod.mk.injEq] at heq
  obtain ⟨latched, haccept, hlatched⟩ := fault_latched hC hrun
  obtain rfl : true = latched := by simpa [haccept] using heq.1.symm
  exact ⟨r, es, hrun, heq.2, haccept, (hlatched rfl).1⟩

/-- A reader before the observer's callback replaces the recorded fault by a
timeout, which all later readers get as well. -/
theorem fault_overwritten_by_silence : ∃ r es,
    (machine .host).run {} (sourceFaultSchedule 2000000 2000000) = some (r, es) ∧
      es.filterMap Event.latchView = [.inl (.frame {} .processed), .inr (.running, .live),
        .inl .fault, .inr (.faulted, .timedOut), .inr (.faulted, .faulted),
        .inr (.faulted, .timedOut)] ∧
      faultLatch.accept false es = none := by
  have hobserved : ((machine .host).run {} (sourceFaultSchedule 2000000 2000000)).map (fun p =>
      (p.2.filterMap Event.latchView, faultLatch.accept false p.2)) =
      some ([.inl (.frame {} .processed), .inr (.running, .live), .inl .fault,
        .inr (.faulted, .timedOut), .inr (.faulted, .faulted), .inr (.faulted, .timedOut)],
        none) := by
    decide +kernel
  obtain ⟨⟨r, es⟩, hrun, heq⟩ := Option.map_eq_some_iff.mp hobserved
  simp only [Prod.mk.injEq] at heq
  exact ⟨r, es, hrun, heq.1, heq.2⟩

end Telemetry
end VehicleCanCore

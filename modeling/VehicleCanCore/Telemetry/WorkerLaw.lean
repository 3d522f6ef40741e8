import VehicleCanCore.Telemetry.SourceProtocol

/-!
# The transactions of the worker

What the worker of one run does visibly is an automaton over its calls. It keeps
the results of all frames of the run, so that every published snapshot can be
compared with them. A stop may be requested between any two calls.
-/

namespace VehicleCanCore
namespace Telemetry

open VehicleCanCore.Core Automata

/-- The counters of a snapshot against the results of the frames so far. -/
def TransportDiagnostics.tallies (d : TransportDiagnostics) (results : List ProcessStatus) : Bool :=
  d.framesProcessed = BitVec.ofNat 64 (results.count .processed) &&
    d.framesIgnored = BitVec.ofNat 64 (results.count .ignored) &&
    d.framesMalformed = BitVec.ofNat 64 (results.count .malformed) &&
    d.processorFaults = BitVec.ofNat 64 (results.count .fault)

/-- The calls of a worker, its creation and the requests that it stop. -/
inductive WorkerEvent
  | created
  | stopRequested
  | received (received : Received)
  | processed (frame : RawCanFrame) (result : ProcessStatus)
  | frameProcessed (frame : RawCanFrame) (result : ProcessStatus)
  | diagnosed (snapshot : TransportDiagnostics)
  | budgetPause
  deriving DecidableEq

def Event.workerCall : Event → Option WorkerEvent
  | .workerCreated => some .created
  | .stopRequested => some .stopRequested
  | .received r => some (.received r)
  | .processed frame result => some (.processed frame result)
  | .frameProcessed frame result => some (.frameProcessed frame result)
  | .diagnosed snapshot => some (.diagnosed snapshot)
  | .budgetPause => some .budgetPause
  | _ => none

namespace WorkerLaw

/-- A receive that begins after the stop request is doomed: its outcome will be
discarded. -/
inductive Phase
  | absent
  | between
  | received (received : Received) (doomed : Bool)
  | processed (frame : RawCanFrame) (result : ProcessStatus)
  | published (frame : RawCanFrame) (result : ProcessStatus)
  | ended
  deriving DecidableEq

end WorkerLaw

/-- The run so far: where its last transaction is, whether a stop was requested,
and the results of its frames. -/
structure WorkerLaw where
  phase : WorkerLaw.Phase := .absent
  stop : Bool := false
  results : List ProcessStatus := []

def Received.isFrame : Received → Bool
  | frame _ => true
  | _ => false

def Received.terminal : Received → Bool
  | fault | notStarted => true
  | _ => false

namespace WorkerLaw

/-- The run may be over: its transactions are complete, but for a last receive
whose outcome is discarded because of the stop request. -/
def final (k : WorkerLaw) : Bool :=
  match k.phase with
  | .absent | .between | .ended => true
  | .received _ _ => k.stop
  | _ => false

/-- A snapshot completes a transaction. Nothing follows a terminal one, nor one
during which a stop was requested. -/
def complete (k : WorkerLaw) (terminal : Bool) (d : TransportDiagnostics) : Option WorkerLaw :=
  if d.tallies k.results then
    some { k with phase := if terminal || k.stop then .ended else .between }
  else none

def next (k : WorkerLaw) : WorkerEvent → Option WorkerLaw
  | .created => if k.final then some { phase := .between } else none
  | .stopRequested => some { k with stop := true }
  | .received received =>
    if k.phase = .between then some { k with phase := .received received k.stop } else none
  | .processed frame result =>
    if k.phase = .received (.frame frame) false then
      some { k with phase := .processed frame result, results := k.results ++ [result] }
    else none
  | .frameProcessed frame result =>
    if k.phase = .processed frame result then some { k with phase := .published frame result }
    else none
  | .diagnosed snapshot =>
    match k.phase with
    | .published _ result => k.complete (result = .fault) snapshot
    | .received received false =>
      if received.isFrame then none else k.complete received.terminal snapshot
    | _ => none
  | .budgetPause =>
    if k.phase = .between then some { k with phase := if k.stop then .ended else .between }
    else none

end WorkerLaw

def workerLaw : Acceptor WorkerLaw WorkerEvent := ⟨WorkerLaw.next⟩

/-! ## Counting results -/

namespace TransportDiagnostics

theorem tallies_iff {d : TransportDiagnostics} {results : List ProcessStatus} :
    d.tallies results = true ↔
      d.framesProcessed = BitVec.ofNat 64 (results.count .processed) ∧
      d.framesIgnored = BitVec.ofNat 64 (results.count .ignored) ∧
      d.framesMalformed = BitVec.ofNat 64 (results.count .malformed) ∧
      d.processorFaults = BitVec.ofNat 64 (results.count .fault) := by
  simp [tallies, and_assoc]

theorem length_eq_counts (results : List ProcessStatus) :
    results.count .processed + results.count .ignored + results.count .malformed +
      results.count .fault = results.length := by
  induction results with
  | nil => rfl
  | cons result results ih => cases result <;> simp [← ih] <;> omega

/-- The counters of the `i`-th snapshot add up to `i`. -/
theorem sum_of_tallies {d : TransportDiagnostics} {results : List ProcessStatus}
    (h : d.tallies results = true) :
    d.framesProcessed + d.framesIgnored + d.framesMalformed + d.processorFaults =
      BitVec.ofNat 64 results.length := by
  obtain ⟨h1, h2, h3, h4⟩ := tallies_iff.mp h
  rw [h1, h2, h3, h4, ← length_eq_counts results]
  simp only [BitVec.ofNat_add]

theorem tallies_count {d : TransportDiagnostics} {results : List ProcessStatus}
    (h : d.tallies results = true) (result : ProcessStatus) :
    (d.count result).tallies (results ++ [result]) = true := by
  obtain ⟨h1, h2, h3, h4⟩ := tallies_iff.mp h
  rw [tallies_iff]
  cases result <;> simp [count, h1, h2, h3, h4, BitVec.ofNat_add]

end TransportDiagnostics

/-! ## Where the law is at each program point -/

open WorkerLaw (Phase)

/-- A received status that is no frame, as an outcome. -/
def Outcome.status : Outcome → Option Received
  | frame _ _ => none
  | timeout => some .timeout
  | fault => some .fault
  | notStarted => some .notStarted

/-- Before the outcome is counted, the record lags behind by the frame in hand. -/
def Outcome.Pending (d : TransportDiagnostics) (k : WorkerLaw) : Outcome → Prop
  | frame f result => k.phase = .processed f result ∧
      ∃ results, k.results = results ++ [result] ∧ d.tallies results = true
  | outcome => (∃ received, outcome.status = some received ∧ k.phase = .received received false) ∧
      d.tallies k.results = true

/-- The snapshot is ready to be published. -/
def Outcome.Ready (k : WorkerLaw) : Outcome → Prop
  | frame f result => k.phase = .published f result
  | outcome => ∃ received, outcome.status = some received ∧ k.phase = .received received false

/-- A worker that is not over, apart from the stop flag. -/
def WorkerPc.InLaw (d : TransportDiagnostics) (k : WorkerLaw) : WorkerPc → Prop
  | begin | loopHead _ | receive _ | afterReceive _ _ | checkpoint _ _ | beginPause _
  | recordPause _ => k.phase = .between ∧ d.tallies k.results = true
  | received _ r _ => (∃ doomed, k.phase = .received r doomed ∧
      (doomed = true → k.stop = true)) ∧ d.tallies k.results = true
  | process _ frame _ => k.phase = .received (.frame frame) false ∧ d.tallies k.results = true
  | refresh _ outcome _ _ | record _ outcome _ => outcome.Pending d k
  | onFrameProcessed _ frame result snapshot => k.phase = .processed frame result ∧
      d.tallies k.results = true ∧ snapshot.tallies k.results = true
  | onDiagnostics _ outcome snapshot =>
    outcome.Ready k ∧ d.tallies k.results = true ∧ snapshot.tallies k.results = true
  | storeFaulted _ _ | requestStop _ _ => k.phase = .ended ∧ d.tallies k.results = true
  | completed _ _ | pause _ => (k.phase = .between ∨ (k.phase = .ended ∧ k.stop = true)) ∧
      d.tallies k.results = true
  | batchDone _ action => d.tallies k.results = true ∧
      if action = .continue then k.stop = true ∧ k.final = true else k.phase = .between
  | exiting | finished => k.final = true

def Runtime.Lawful (r : Runtime) (k : WorkerLaw) : Prop :=
  match r.worker with
  | none => k.final = true
  | some pc => pc.InLaw r.diagnostics k ∧ (pc.isFinished = false → k.stop = r.stopRequested)

theorem WorkerLaw.final_of_between {k : WorkerLaw} (h : k.phase = .between) : k.final = true := by
  simp [final, h]

theorem WorkerPc.InLaw.congr {d d' : TransportDiagnostics} {k : WorkerLaw} {pc : WorkerPc}
    (h : pc.InLaw d k) (htallies : ∀ results, d'.tallies results = d.tallies results) :
    pc.InLaw d' k := by
  cases pc with
  | refresh _ outcome | record _ outcome =>
    cases outcome <;> simpa only [InLaw, Outcome.Pending, htallies] using h
  | _ => simpa only [InLaw, htallies] using h

/-- A stop request changes what is allowed next, not what has been done. -/
theorem WorkerPc.InLaw.stopRequested {d : TransportDiagnostics} {k : WorkerLaw} {pc : WorkerPc}
    (h : pc.InLaw d k) : pc.InLaw d { k with stop := true } := by
  have hfinal (hk : k.final = true) : ({ k with stop := true } : WorkerLaw).final = true := by
    cases hphase : k.phase <;> simp_all [WorkerLaw.final]
  cases pc with
  | received =>
    obtain ⟨⟨doomed, hphase, -⟩, htallies⟩ := h
    exact ⟨⟨doomed, hphase, fun _ => rfl⟩, htallies⟩
  | refresh _ outcome | record _ outcome => cases outcome <;> exact h
  | onDiagnostics _ outcome => cases outcome <;> exact h
  | completed | pause => exact ⟨h.1.imp_right fun hended => ⟨hended.1, rfl⟩, h.2⟩
  | batchDone _ action =>
    refine ⟨h.1, ?_⟩
    have haction := h.2
    split_ifs at haction ⊢
    · exact ⟨rfl, hfinal haction.2⟩
    · exact haction
  | exiting | finished => exact hfinal h
  | _ => exact h

/-! ## Steps of the worker -/

theorem recordOutcome_tallies {r : Runtime} {k : WorkerLaw} {outcome : Outcome}
    (h : outcome.Pending r.diagnostics k) (time : UInt64) :
    (r.recordOutcome outcome time).diagnostics.tallies k.results = true := by
  cases outcome with
  | frame f result =>
    obtain ⟨-, results, hresults, htallies⟩ := h
    rw [hresults]
    refine TransportDiagnostics.tallies_count ?_ result
    exact htallies
  | timeout =>
    obtain ⟨-, htallies⟩ := h
    simp only [Runtime.recordOutcome]
    split_ifs
    · exact htallies
    · obtain ⟨transport, heq⟩ := Runtime.updateSilenceDiagnostic_eq
        { r with diagnostics := { r.diagnostics with acquisition := r.acquisitionStatisticsCache } }
        time
      rw [heq]
      exact htallies
  | fault | notStarted => exact h.2

/-- A complete transaction is published. -/
theorem complete_ready {k : WorkerLaw} {outcome : Outcome} {snapshot : TransportDiagnostics}
    (h : outcome.Ready k) (hsnapshot : snapshot.tallies k.results = true) :
    k.next (.diagnosed snapshot) =
      some { k with phase := if outcome.terminal || k.stop then .ended else .between } := by
  cases outcome with
  | frame f result =>
    have hphase : k.phase = .published f result := h
    cases result <;>
      simp [WorkerLaw.next, hphase, WorkerLaw.complete, hsnapshot, Outcome.terminal]
  | timeout | fault | notStarted =>
    obtain ⟨received, hreceived, hphase⟩ := h
    cases hreceived
    simp [WorkerLaw.next, hphase, WorkerLaw.complete, hsnapshot, Outcome.terminal,
      Received.isFrame, Received.terminal]

theorem workerStep_lawful {r r' : Runtime} {input : WorkerInput} {pc pc' : WorkerPc}
    {es : List Event} {k : WorkerLaw} (h : pc.InLaw r.diagnostics k)
    (hstop : k.stop = r.stopRequested) (hstep : workerStep r input pc = some (r', pc', es)) :
    ∃ k', workerLaw.accept k (es.filterMap Event.workerCall) = some k' ∧
      pc'.InLaw r'.diagnostics k' ∧ (pc'.isFinished = false → k'.stop = r'.stopRequested) := by
  cases pc with
  | finished => cases hstep
  | begin =>
    cases hstep
    exact ⟨k, rfl, h, fun _ => hstop⟩
  | exiting =>
    cases hstep
    exact ⟨k, rfl, h, fun _ => hstop⟩
  | loopHead budget | beginPause budget =>
    cases hstep
    refine ⟨k, rfl, ?_, fun _ => hstop⟩
    split_ifs
    · exact WorkerLaw.final_of_between h.1
    · exact h
  | receive budget =>
    cases hstep
    refine ⟨{ k with phase := .received input.received k.stop }, ?_, ⟨⟨k.stop, rfl, id⟩, h.2⟩,
      fun _ => hstop⟩
    simp [workerLaw, WorkerLaw.next, Event.workerCall, h.1]
  | received budget received time =>
    obtain ⟨⟨doomed, hphase, hdoomed⟩, htallies⟩ := h
    simp only [workerStep] at hstep
    split_ifs at hstep with hrequested
    · cases hstep
      have hkstop : k.stop = true := hstop.trans hrequested
      exact ⟨k, rfl, ⟨htallies, by simp [WorkerLaw.final, hphase, hkstop]⟩, fun _ => hstop⟩
    · obtain rfl : doomed = false := by
        cases doomed
        · rfl
        · exact absurd (hstop.symm.trans (hdoomed rfl)) hrequested
      cases received <;> cases hstep
      · exact ⟨k, rfl, ⟨hphase, htallies⟩, fun _ => hstop⟩
      all_goals exact ⟨k, rfl, ⟨⟨_, rfl, hphase⟩, htallies⟩, fun _ => hstop⟩
  | process budget frame time =>
    cases hstep
    refine ⟨{ k with
      phase := .processed frame input.result, results := k.results ++ [input.result] },
      ?_, ⟨rfl, k.results, rfl, h.2⟩, fun _ => hstop⟩
    simp [workerLaw, WorkerLaw.next, Event.workerCall, h.1]
  | refresh budget outcome time pc =>
    simp only [workerStep, Option.map_eq_some_iff, Prod.exists] at hstep
    obtain ⟨r'', pc'', hrefresh, heq⟩ := hstep
    obtain ⟨_, _, _, _, rfl⟩ := Runtime.refreshStep_eq hrefresh
    cases heq
    cases pc'' <;> exact ⟨k, rfl, h, fun _ => hstop⟩
  | record budget outcome time =>
    have htallies := recordOutcome_tallies h time
    obtain ⟨d, heq⟩ := Runtime.recordOutcome_eq r outcome time
    rw [heq] at htallies
    simp only [workerStep, heq] at hstep
    cases outcome with
    | frame f result =>
      cases hstep
      exact ⟨k, rfl, ⟨h.1, htallies, htallies⟩, fun _ => hstop⟩
    | timeout | fault | notStarted =>
      cases hstep
      exact ⟨k, rfl, ⟨h.1, htallies, htallies⟩, fun _ => hstop⟩
  | onFrameProcessed budget frame result snapshot =>
    cases hstep
    refine ⟨{ k with phase := .published frame result }, ?_, ⟨rfl, h.2⟩, fun _ => hstop⟩
    simp [workerLaw, WorkerLaw.next, Event.workerCall, h.1]
  | onDiagnostics budget outcome snapshot =>
    obtain ⟨hready, htallies, hsnapshot⟩ := h
    cases hstep
    refine ⟨_, (Acceptor.accept_singleton _ _ _).trans (complete_ready hready hsnapshot), ?_,
      fun _ => hstop⟩
    cases hterminal : outcome.terminal with
    | true => exact ⟨by simp, htallies⟩
    | false => exact ⟨by cases k.stop <;> simp, htallies⟩
  | storeFaulted budget outcome =>
    cases hstep
    exact ⟨k, rfl, h, fun _ => hstop⟩
  | requestStop budget outcome =>
    cases hstep
    exact ⟨{ k with stop := true }, rfl, ⟨.inr ⟨h.1, rfl⟩, h.2⟩, fun _ => rfl⟩
  | completed budget outcome =>
    obtain ⟨hphase, htallies⟩ := h
    cases hstep
    refine ⟨k, rfl, ?_, fun _ => hstop⟩
    split_ifs with hrequested
    · have hkstop : k.stop = true := hstop.trans hrequested
      refine ⟨htallies, ?_⟩
      rcases hphase with hphase | ⟨hphase, -⟩ <;> simp [hkstop, WorkerLaw.final, hphase]
    · rcases hphase with hphase | ⟨-, hkstop⟩
      · exact ⟨hphase, htallies⟩
      · exact absurd (hstop.symm.trans hkstop) hrequested
  | afterReceive budget outcome =>
    simp only [workerStep] at hstep
    split at hstep <;> cases hstep
    · exact ⟨k, rfl, h, fun _ => hstop⟩
    · rename_i action hends _
      exact ⟨k, rfl, ⟨h.2, by rw [if_neg hends]; exact h.1⟩, fun _ => hstop⟩
  | batchDone budget action =>
    obtain ⟨htallies, haction⟩ := h
    cases hstep
    refine ⟨k, rfl, ?_, fun _ => hstop⟩
    split_ifs at haction with hbroken
    · rw [if_pos (hstop.symm.trans haction.1)]
      exact haction.2
    · split_ifs
      · exact WorkerLaw.final_of_between haction
      · exact ⟨haction, htallies⟩
  | checkpoint budget action =>
    obtain ⟨transport, heq⟩ := Runtime.updateSilenceDiagnostic_eq r input.now
    simp only [workerStep, heq] at hstep
    cases hstep
    refine ⟨k, rfl, ?_, fun _ => hstop⟩
    split_ifs <;> exact h
  | recordPause budget =>
    cases hstep
    refine ⟨{ k with phase := if k.stop then .ended else .between }, ?_, ⟨?_, h.2⟩, fun _ => hstop⟩
    · simp [workerLaw, WorkerLaw.next, Event.workerCall, h.1]
    · cases k.stop <;> simp
  | pause budget =>
    obtain ⟨hphase, htallies⟩ := h
    cases hstep
    refine ⟨k, rfl, ?_, fun _ => hstop⟩
    split_ifs with hrequested
    · rcases hphase with hphase | ⟨hphase, -⟩ <;> simp [WorkerPc.InLaw, WorkerLaw.final, hphase]
    · rcases hphase with hphase | ⟨-, hkstop⟩
      · exact ⟨hphase, htallies⟩
      · exact absurd (hstop.symm.trans hkstop) hrequested

/-! ## Steps of the operations -/

/-- What `start()` has prepared for the worker that it is about to create. -/
def OperationPc.Prepared (r : Runtime) : OperationPc → Prop
  | setWorkerActive | refresh _ | resetDiagnostics => r.stopRequested = false
  | storeRunning | createWorker =>
    r.stopRequested = false ∧ r.diagnostics.tallies [] = true
  | _ => True

theorem OperationPc.Prepared.congr {r r' : Runtime} {pc : OperationPc} (h : pc.Prepared r)
    (hstop : r'.stopRequested = r.stopRequested)
    (htallies : ∀ results, r'.diagnostics.tallies results = r.diagnostics.tallies results) :
    pc.Prepared r' := by
  cases pc with
  | setWorkerActive | refresh | resetDiagnostics => exact hstop.trans h
  | storeRunning | createWorker => exact ⟨hstop.trans h.1, (htallies []).trans h.2⟩
  | _ => trivial

theorem OperationPc.AfterCleanup.prepared {r : Runtime} {pc : OperationPc}
    (h : pc.AfterCleanup) : pc.Prepared r := by
  cases h <;> trivial

theorem Runtime.Lawful.congr {r r' : Runtime} {k : WorkerLaw} (h : r.Lawful k)
    (hworker : r'.worker = r.worker) (hstop : r'.stopRequested = r.stopRequested)
    (htallies : ∀ results, r'.diagnostics.tallies results = r.diagnostics.tallies results) :
    r'.Lawful k := by
  unfold Runtime.Lawful at h ⊢
  rw [hworker]
  cases hpc : r.worker with
  | none => simpa [hpc] using h
  | some pc =>
    simp only [hpc] at h ⊢
    exact ⟨h.1.congr htallies, by rw [hstop]; exact h.2⟩

theorem Runtime.Gone.lawful_iff {platform : Platform} {r : Runtime} {k : WorkerLaw}
    (h : r.Gone platform) : r.Lawful k ↔ k.final = true := by
  unfold Runtime.Lawful
  unfold Runtime.Gone at h
  cases hpc : r.worker with
  | none => exact Iff.rfl
  | some pc =>
    simp only [hpc] at h
    cases pc <;> simp_all [WorkerPc.isFinished, WorkerPc.InLaw]

/-- A worker that is to be joined has completed its transactions. -/
theorem Runtime.Lawful.final_of_workerGone {platform : Platform} {r : Runtime} {k : WorkerLaw}
    (h : r.Lawful k) (hannounced : r.WorkerAnnounced) (hgone : r.workerGone platform = true) :
    k.final = true := by
  unfold Runtime.Lawful at h
  cases hpc : r.worker with
  | none => simpa [hpc] using h
  | some pc =>
    have hfinished := hannounced.finished hgone hpc
    simp only [hpc] at h
    cases pc <;> simp_all [WorkerPc.isFinished, WorkerPc.InLaw]

theorem Runtime.Lawful.stopRequested {r : Runtime} {k : WorkerLaw} (h : r.Lawful k) :
    ({ r with stopRequested := true } : Runtime).Lawful { k with stop := true } := by
  unfold Runtime.Lawful at h ⊢
  cases hpc : r.worker with
  | none =>
    simp only [hpc] at h ⊢
    cases hphase : k.phase <;> simp_all [WorkerLaw.final]
  | some pc =>
    simp only [hpc] at h ⊢
    refine ⟨h.1.stopRequested, ?_⟩
    intro hrunning
    trivial

/-- The diagnostics and the flags that a refresh leaves alone. -/
theorem refreshStep_lawful {r r' : Runtime} {statistics : AcquisitionStatistics} {pc : RefreshPc}
    {pc' : Option RefreshPc} {k : WorkerLaw} (h : r.Lawful k)
    (hstep : r.refreshStep statistics pc = some (r', pc')) :
    r'.Lawful k ∧ r'.stopRequested = r.stopRequested ∧ r'.diagnostics = r.diagnostics := by
  obtain ⟨_, _, _, _, rfl⟩ := Runtime.refreshStep_eq hstep
  exact ⟨h.congr rfl rfl fun _ => rfl, rfl, rfl⟩

theorem operationStep_lawful {platform : Platform} {r r' : Runtime} {input : OperationInput}
    {pc pc' : OperationPc} {es : List Event} {k : WorkerLaw} (howned : pc.Owned platform r)
    (hannounced : r.WorkerAnnounced) (hprepared : pc.Prepared r) (h : r.Lawful k)
    (hstep : operationStep platform r input pc = some (r', pc', es)) :
    ∃ k', workerLaw.accept k (es.filterMap Event.workerCall) = some k' ∧ r'.Lawful k' ∧
      pc'.Prepared r' := by
  cases pc with
  | idle | destroyed => cases hstep
  | resetCache | resetProcessor | askRetry | callStart | storeStopping | beginDiagnostic
  | resetCacheAtEnd | finish | clearWorkerActive | storeFinal =>
    cases hstep
    exact ⟨k, rfl, h.congr rfl rfl fun _ => rfl, trivial⟩
  | awaitStart =>
    simp only [operationStep] at hstep
    split_ifs at hstep <;> cases hstep <;> exact ⟨k, rfl, h.congr rfl rfl fun _ => rfl, trivial⟩
  | clearStopRequested =>
    cases hstep
    have hgone : ({ r with stopRequested := false } : Runtime).Gone platform := howned.2.1.congr rfl
    exact ⟨k, rfl, hgone.lawful_iff.mpr (howned.2.1.lawful_iff.mp h), rfl⟩
  | setWorkerActive =>
    cases hstep
    exact ⟨k, rfl, h.congr rfl rfl fun _ => rfl, hprepared⟩
  | refresh pc =>
    simp only [operationStep, Option.map_eq_some_iff, Prod.exists] at hstep
    obtain ⟨r'', pc'', hrefresh, heq⟩ := hstep
    obtain ⟨hlawful, hstop, -⟩ := refreshStep_lawful h hrefresh
    cases heq
    have hclear : r'.stopRequested = false := hstop.trans hprepared
    exact ⟨k, rfl, hlawful, by cases pc'' <;> exact hclear⟩
  | resetDiagnostics =>
    have hfinal := howned.2.1.lawful_iff.mp h
    cases hstep
    refine ⟨k, rfl, ?_, hprepared, rfl⟩
    have hgone : ({ r with diagnostics := {
        lifecycle := .running
        transport := .awaitingTraffic
        acquisition := r.acquisitionStatisticsCache } } : Runtime).Gone platform :=
      howned.2.1.congr rfl
    exact hgone.lawful_iff.mpr hfinal
  | storeRunning =>
    cases hstep
    exact ⟨k, rfl, h.congr rfl rfl fun _ => rfl, hprepared⟩
  | createWorker =>
    have hfinal := howned.2.1.lawful_iff.mp h
    simp only [operationStep] at hstep
    split_ifs at hstep <;> cases hstep
    · refine ⟨{ phase := .between }, ?_, ⟨⟨rfl, hprepared.2⟩, ?_⟩, trivial⟩
      · simp [workerLaw, WorkerLaw.next, Event.workerCall, hfinal]
      · intro hrunning
        exact hprepared.1.symm
    · exact ⟨k, rfl, h, trivial⟩
  | awaitWorker result =>
    simp only [operationStep] at hstep
    split_ifs at hstep with hgone <;> cases hstep
    · exact ⟨k, rfl, (Runtime.gone_join hannounced hgone).lawful_iff.mpr
        (h.final_of_workerGone hannounced hgone), trivial⟩
    · exact ⟨k, rfl, h, trivial⟩
  | requestStop caller =>
    cases hstep
    refine ⟨{ k with stop := true }, rfl, h.stopRequested, ?_⟩
    cases caller with
    | start | stop => trivial
    | destroy final => exact destroyBy_of (P := OperationPc.Prepared _) trivial trivial trivial
  | attemptStop caller =>
    simp only [operationStep] at hstep
    split at hstep <;> cases hstep
    · exact ⟨k, rfl, h, (afterSourceStop_afterCleanup _ _).prepared⟩
    · exact ⟨k, rfl, h.congr rfl rfl fun _ => rfl, trivial⟩
  | cleanUp caller =>
    simp only [operationStep] at hstep
    split at hstep <;> cases hstep
    · exact ⟨k, rfl, h, (afterPartialCleanup_afterCleanup _ _).prepared⟩
    · exact ⟨k, rfl, h.congr rfl rfl fun _ => rfl, trivial⟩
  | awaitStop caller =>
    cases hstep
    exact ⟨k, rfl, h.congr rfl rfl fun _ => rfl, (afterSourceStop_afterCleanup _ _).prepared⟩
  | awaitCleanup caller =>
    cases hstep
    exact ⟨k, rfl, h.congr rfl rfl fun _ => rfl, (afterPartialCleanup_afterCleanup _ _).prepared⟩
  | refreshDiagnostic lifecycle transport next pc =>
    simp only [operationStep, Option.map_eq_some_iff, Prod.exists] at hstep
    obtain ⟨r'', pc'', hrefresh, heq⟩ := hstep
    obtain ⟨hlawful, -⟩ := refreshStep_lawful h hrefresh
    cases heq
    exact ⟨k, rfl, hlawful, by cases pc'' <;> trivial⟩
  | writeDiagnostic lifecycle transport next =>
    cases hstep
    exact ⟨k, rfl, h.congr rfl rfl fun _ => rfl, by cases next <;> trivial⟩
  | joinWorker =>
    simp only [operationStep] at hstep
    split_ifs at hstep with hgone
    cases hstep
    exact ⟨k, rfl, (Runtime.gone_join hannounced hgone).lawful_iff.mpr
      (h.final_of_workerGone hannounced hgone), trivial⟩
  | retryCleanup =>
    cases hstep
    refine ⟨k, rfl, h, ?_⟩
    split_ifs
    · exact destroyBy_of (P := OperationPc.Prepared _) trivial trivial trivial
    · trivial

/-! ## All threads together -/

/-- Only operations that find no worker prepare for one. -/
theorem OperationPc.Owned.prepared {platform : Platform} {r : Runtime} {pc : OperationPc}
    (h : pc.Owned platform r) (hrunning : ¬ r.Gone platform) (r' : Runtime) : pc.Prepared r' := by
  cases pc with
  | setWorkerActive | refresh | resetDiagnostics | storeRunning | createWorker =>
    exact absurd h.2.1 hrunning
  | _ => trivial

/-- The law is where the worker and the operation in progress say. -/
def Runtime.InLaw (platform : Platform) (r : Runtime) (k : WorkerLaw) : Prop :=
  r.Sound platform ∧ r.operation.Prepared r ∧ r.Lawful k

theorem updateSilenceDiagnostic_tallies (r : Runtime) (now : UInt64)
    (results : List ProcessStatus) :
    (r.updateSilenceDiagnostic now).diagnostics.tallies results =
      r.diagnostics.tallies results := by
  obtain ⟨transport, heq⟩ := Runtime.updateSilenceDiagnostic_eq r now
  rw [heq]
  rfl

theorem step_lawful {platform : Platform} {r t : Runtime} {a : Action} {es : List Event}
    {k : WorkerLaw} (hr : r.Sound platform) (hprepared : r.operation.Prepared r) (h : r.Lawful k)
    (hstep : step platform r a = some (t, es)) :
    ∃ k', workerLaw.accept k (es.filterMap Event.workerCall) = some k' ∧
      t.operation.Prepared t ∧ t.Lawful k' := by
  cases step_cases hstep with
  | configure =>
    exact ⟨k, rfl, hprepared.congr rfl fun _ => rfl, h.congr rfl rfl fun _ => rfl⟩
  | refused => exact ⟨k, rfl, hprepared, h⟩
  | start => exact ⟨k, rfl, trivial, h.congr rfl rfl fun _ => rfl⟩
  | stop free owned usable begins =>
    refine ⟨k, rfl, ?_, h.congr rfl rfl fun _ => rfl⟩
    rcases begins with ⟨-, rfl⟩ | ⟨-, ⟨-, rfl⟩ | ⟨-, rfl⟩⟩ <;> trivial
  | destroy idle => exact ⟨k, rfl, trivial, h.congr rfl rfl fun _ => rfl⟩
  | operation hop =>
    obtain ⟨k', hk', hlawful, hprepared'⟩ :=
      operationStep_lawful hr.owned hr.announced hprepared h hop
    exact ⟨k', hk', hprepared'.congr rfl fun _ => rfl, hlawful.congr rfl rfl fun _ => rfl⟩
  | worker active hworker =>
    have heffect := workerStep_effect hworker
    unfold Runtime.Lawful at h
    simp only [active] at h
    obtain ⟨k', hk', hlaw, hstop⟩ := workerStep_lawful h.1 (h.2 heffect.running) hworker
    refine ⟨k', hk', ?_, hlaw, hstop⟩
    simp only [heffect.operation]
    exact hr.owned.prepared (Runtime.Gone.not_running active heffect.running) _
  | read usable =>
    have htallies := updateSilenceDiagnostic_tallies r
    obtain ⟨transport, heq⟩ := Runtime.updateSilenceDiagnostic_eq r _
    rw [heq]
    exact ⟨k, rfl, hprepared.congr rfl fun _ => rfl, h.congr rfl rfl fun _ => rfl⟩

theorem simulates_workerLaw (platform : Platform) :
    (machine platform).Simulates workerLaw Event.workerCall (Runtime.InLaw platform) := by
  intro r a t es k hR hstep
  obtain ⟨hr, hprepared, hlawful⟩ := hR
  obtain ⟨k', hk', hrest⟩ := step_lawful hr hprepared hlawful hstep
  exact ⟨k', hk', step_sound hr hstep, hrest⟩

/-! ## The calls of one run as lists -/

namespace WorkerEvent

def isCreated : WorkerEvent → Bool
  | created => true
  | _ => false

def receivedFrame : WorkerEvent → Option RawCanFrame
  | received (.frame frame) => some frame
  | _ => none

def processedFrame : WorkerEvent → Option RawCanFrame
  | processed frame _ => some frame
  | _ => none

def result : WorkerEvent → Option ProcessStatus
  | processed _ result => some result
  | _ => none

def terminal : WorkerEvent → Bool
  | received r => r.terminal
  | processed _ result => result = .fault
  | _ => false

/-- The worker goes on to another receive, or towards one. -/
def continues : WorkerEvent → Bool
  | received _ | budgetPause => true
  | _ => false

end WorkerEvent

/-- The calls of a worker since its creation. -/
structure WorkerRun (calls : List WorkerEvent) : Prop where
  frames : ∃ last, last.length ≤ 1 ∧
    calls.filterMap WorkerEvent.receivedFrame = calls.filterMap WorkerEvent.processedFrame ++ last
  snapshots : ∀ before d after, calls = before ++ .diagnosed d :: after →
    d.tallies (before.filterMap WorkerEvent.result) = true ∧
      d.framesProcessed + d.framesIgnored + d.framesMalformed + d.processorFaults =
        BitVec.ofNat 64 (before.filterMap WorkerEvent.processedFrame).length
  terminal : ∀ before e after, calls = before ++ e :: after → e.terminal = true →
    ∀ e' ∈ after, e'.continues = false

namespace WorkerLaw

def inHand (k : WorkerLaw) : List RawCanFrame :=
  match k.phase with
  | .received (.frame frame) _ => [frame]
  | _ => []

theorem inHand_length (k : WorkerLaw) : k.inHand.length ≤ 1 := by
  unfold inHand
  split <;> simp

def terminating (k : WorkerLaw) : Bool :=
  match k.phase with
  | .received r _ => r.terminal
  | .processed _ result | .published _ result => result = .fault
  | .ended => true
  | _ => false

theorem complete_eq {k k' : WorkerLaw} {terminal : Bool} {d : TransportDiagnostics}
    (h : k.complete terminal d = some k') :
    d.tallies k.results = true ∧ k'.results = k.results ∧ k'.inHand = [] ∧
      (terminal = true → k'.phase = .ended) := by
  simp only [complete, Option.ite_none_right_eq_some, Option.some.injEq] at h
  obtain ⟨htallies, rfl⟩ := h
  refine ⟨htallies, rfl, ?_, ?_⟩
  · simp only [inHand]
    split_ifs <;> rfl
  · intro hterminal
    simp [hterminal]

/-- The results and the frame in hand account for every call. -/
theorem next_account {k k' : WorkerLaw} {e : WorkerEvent} (h : k.next e = some k')
    (hrun : e.isCreated = false) :
    k'.results = k.results ++ e.result.toList ∧
      k.inHand ++ e.receivedFrame.toList = e.processedFrame.toList ++ k'.inHand := by
  cases e with
  | created => cases hrun
  | stopRequested =>
    cases h
    simp [WorkerEvent.result, WorkerEvent.receivedFrame, WorkerEvent.processedFrame, inHand]
  | received r =>
    simp only [next, Option.ite_none_right_eq_some, Option.some.injEq] at h
    obtain ⟨hphase, rfl⟩ := h
    cases r <;> simp [WorkerEvent.result, WorkerEvent.receivedFrame, WorkerEvent.processedFrame,
      inHand, hphase]
  | processed frame result | frameProcessed frame result =>
    simp only [next, Option.ite_none_right_eq_some, Option.some.injEq] at h
    obtain ⟨hphase, rfl⟩ := h
    simp [WorkerEvent.result, WorkerEvent.receivedFrame, WorkerEvent.processedFrame, inHand, hphase]
  | diagnosed d =>
    simp only [WorkerEvent.result, WorkerEvent.receivedFrame, WorkerEvent.processedFrame,
      Option.toList_none, List.append_nil, List.nil_append]
    simp only [next] at h
    split at h
    · rename_i hphase
      obtain ⟨-, hresults, hnone, -⟩ := complete_eq h
      exact ⟨hresults, by rw [hnone]; simp [inHand, hphase]⟩
    · rename_i r hphase
      simp only [Option.ite_none_left_eq_some] at h
      obtain ⟨-, hresults, hnone, -⟩ := complete_eq h.2
      refine ⟨hresults, ?_⟩
      rw [hnone]
      cases r <;> simp_all [inHand, Received.isFrame]
    · cases h
  | budgetPause =>
    simp only [next, Option.ite_none_right_eq_some, Option.some.injEq] at h
    obtain ⟨hphase, rfl⟩ := h
    cases k.stop <;> simp [WorkerEvent.result, WorkerEvent.receivedFrame,
      WorkerEvent.processedFrame, inHand, hphase]

theorem next_terminal {k k' : WorkerLaw} {e : WorkerEvent} (h : k.next e = some k')
    (hterminal : e.terminal = true) : k'.terminating = true := by
  cases e with
  | received r | processed frame r =>
    simp only [next, Option.ite_none_right_eq_some, Option.some.injEq] at h
    obtain ⟨-, rfl⟩ := h
    exact hterminal
  | _ => cases hterminal

theorem next_terminating {k k' : WorkerLaw} {e : WorkerEvent} (hk : k.terminating = true)
    (hrun : e.isCreated = false) (h : k.next e = some k') :
    k'.terminating = true ∧ e.continues = false := by
  unfold terminating at hk
  cases e with
  | created => cases hrun
  | stopRequested =>
    cases h
    exact ⟨hk, rfl⟩
  | received | budgetPause | processed =>
    simp only [next, Option.ite_none_right_eq_some, Option.some.injEq] at h
    simp [h.1, Received.terminal] at hk
  | frameProcessed frame result =>
    simp only [next, Option.ite_none_right_eq_some, Option.some.injEq] at h
    obtain ⟨hphase, rfl⟩ := h
    simp only [hphase] at hk
    exact ⟨hk, rfl⟩
  | diagnosed d =>
    refine ⟨?_, rfl⟩
    simp only [next] at h
    split at h
    · rename_i hphase
      simp only [hphase] at hk
      simp [terminating, (complete_eq h).2.2.2 hk]
    · rename_i hphase
      simp only [Option.ite_none_left_eq_some] at h
      simp only [hphase] at hk
      simp [terminating, (complete_eq h.2).2.2.2 hk]
    · cases h

theorem next_diagnosed {k k' : WorkerLaw} {d : TransportDiagnostics}
    (h : k.next (.diagnosed d) = some k') : d.tallies k.results = true := by
  simp only [next] at h
  split at h
  · exact (complete_eq h).1
  · simp only [Option.ite_none_left_eq_some] at h
    exact (complete_eq h.2).1
  · cases h

/-- Results and frames of a run so far. -/
theorem accept_account {calls : List WorkerEvent} {k : WorkerLaw}
    (h : workerLaw.accept { phase := .between } calls = some k)
    (hrun : ∀ e ∈ calls, e.isCreated = false) :
    k.results = calls.filterMap WorkerEvent.result ∧
      calls.filterMap WorkerEvent.receivedFrame =
        calls.filterMap WorkerEvent.processedFrame ++ k.inHand := by
  have hinv := workerLaw.accept_invariant
    (I := fun h k => (∀ e ∈ h, e.isCreated = false) →
      k.results = h.filterMap WorkerEvent.result ∧
        h.filterMap WorkerEvent.receivedFrame =
          h.filterMap WorkerEvent.processedFrame ++ k.inHand)
    (h := []) (fun h k e k' hI hnext hall => ?_) (fun _ => ⟨rfl, rfl⟩) h
  · exact hinv hrun
  · obtain ⟨hresults, hframes⟩ := hI fun e he => hall e (by simp [he])
    obtain ⟨hresults', hframes'⟩ := next_account hnext (hall e (by simp))
    have happend (f : WorkerEvent → Option RawCanFrame) :
        (h ++ [e]).filterMap f = h.filterMap f ++ (f e).toList := by
      cases he : f e <;> simp [he]
    constructor
    · rw [hresults', hresults]
      cases he : e.result <;> simp [he]
    · rw [happend, happend, hframes, List.append_assoc, hframes', List.append_assoc]

theorem length_results (calls : List WorkerEvent) :
    (calls.filterMap WorkerEvent.result).length =
      (calls.filterMap WorkerEvent.processedFrame).length := by
  induction calls with
  | nil => rfl
  | cons e calls ih =>
    cases e <;> simp [List.filterMap_cons, WorkerEvent.result, WorkerEvent.processedFrame, ih]

/-- Every accepted run of one worker is a run in terms of lists. -/
theorem workerRun_of_accept {calls : List WorkerEvent} {k : WorkerLaw}
    (h : workerLaw.accept { phase := .between } calls = some k)
    (hrun : ∀ e ∈ calls, e.isCreated = false) : WorkerRun calls where
  frames := ⟨k.inHand, k.inHand_length, (accept_account h hrun).2⟩
  snapshots := by
    intro before d after heq
    rw [heq] at h hrun
    obtain ⟨k₁, hbefore, hafter⟩ := workerLaw.accept_append_eq_some.mp h
    obtain ⟨k₂, hd, -⟩ := workerLaw.accept_cons_eq_some.mp hafter
    have htallies := next_diagnosed hd
    rw [(accept_account hbefore fun e he => hrun e (by simp [he])).1] at htallies
    refine ⟨htallies, ?_⟩
    rw [TransportDiagnostics.sum_of_tallies htallies, length_results]
  terminal := by
    intro before e after heq hterminal
    rw [heq] at h hrun
    obtain ⟨k₁, -, hafter⟩ := workerLaw.accept_append_eq_some.mp h
    obtain ⟨k₂, he, hrest⟩ := workerLaw.accept_cons_eq_some.mp hafter
    refine workerLaw.accept_events (I := fun k => k.terminating = true)
      (Q := fun e => e.isCreated = false) (P := fun e => e.continues = false)
      (fun k e k' hk hQ hnext => next_terminating hk hQ hnext) (next_terminal he hterminal)
      (fun e' he' => hrun e' (by simp [he'])) hrest

end WorkerLaw

/-! ## After the end of a worker -/

def Event.quiet (e : Event) : Bool :=
  match e.workerCall with
  | none | some .stopRequested => true
  | _ => false

theorem operationStep_gone {platform : Platform} {r r' : Runtime} {input : OperationInput}
    {pc pc' : OperationPc} {es : List Event} (hgone : r.Gone platform)
    (hstep : operationStep platform r input pc = some (r', pc', es)) :
    .workerCreated ∈ es ∨ (r'.Gone platform ∧ ∀ e ∈ es, e.quiet = true) := by
  have hjoin : (r.join platform).Gone platform := by
    cases platform with
    | host => exact Runtime.gone_of_none rfl
    | esp => exact hgone
  cases pc with
  | idle | destroyed => cases hstep
  | createWorker =>
    simp only [operationStep] at hstep
    split_ifs at hstep <;> cases hstep
    · exact .inl (by simp)
    · exact .inr ⟨hgone, by simp⟩
  | refresh pc | refreshDiagnostic _ _ _ pc =>
    simp only [operationStep, Option.map_eq_some_iff, Prod.exists] at hstep
    obtain ⟨r'', pc'', hrefresh, heq⟩ := hstep
    obtain ⟨_, _, _, _, rfl⟩ := Runtime.refreshStep_eq hrefresh
    cases heq
    exact .inr ⟨hgone.congr rfl, by simp⟩
  | awaitStart =>
    simp only [operationStep] at hstep
    split_ifs at hstep <;> cases hstep <;>
      exact .inr ⟨hgone.congr rfl, by simp [Event.quiet, Event.workerCall]⟩
  | awaitWorker | joinWorker =>
    simp only [operationStep] at hstep
    split_ifs at hstep <;> cases hstep
    all_goals first
      | exact .inr ⟨hjoin, by simp⟩
      | exact .inr ⟨hgone, by simp⟩
  | attemptStop | cleanUp =>
    simp only [operationStep] at hstep
    split at hstep <;> cases hstep <;>
      exact .inr ⟨hgone.congr rfl, by simp [Event.quiet, Event.workerCall]⟩
  | _ =>
    cases hstep
    exact .inr ⟨hgone.congr rfl, by simp [Event.quiet, Event.workerCall]⟩

theorem step_gone {platform : Platform} {r t : Runtime} {a : Action} {es : List Event}
    (hgone : r.Gone platform) (hstep : step platform r a = some (t, es)) :
    .workerCreated ∈ es ∨ (t.Gone platform ∧ ∀ e ∈ es, e.quiet = true) := by
  cases step_cases hstep with
  | configure | start | stop =>
    exact .inr ⟨hgone.congr rfl, by simp [Event.quiet, Event.workerCall]⟩
  | refused => exact .inr ⟨hgone, by simp [Event.quiet, Event.workerCall]⟩
  | destroy idle => exact .inr ⟨hgone.congr rfl, by simp⟩
  | operation hop => exact (operationStep_gone hgone hop).imp_right fun h => ⟨h.1.congr rfl, h.2⟩
  | worker active hworker =>
    exact absurd hgone (Runtime.Gone.not_running active (workerStep_effect hworker).running)
  | read usable =>
    obtain ⟨transport, heq⟩ := Runtime.updateSilenceDiagnostic_eq r _
    rw [heq]
    exact .inr ⟨hgone.congr rfl, by simp [Event.quiet, Event.workerCall]⟩

/-- Without a worker there are no calls of a worker until the next one is created. -/
theorem run_gone {platform : Platform} {r t : Runtime} {as : List Action} {es : List Event}
    (hgone : r.Gone platform) (hrun : (machine platform).run r as = some (t, es))
    (hnone : .workerCreated ∉ es) : ∀ e ∈ es, e.quiet = true := by
  have hinv := (machine platform).run_invariant
    (I := fun h s => .workerCreated ∈ h ∨ (s.Gone platform ∧ ∀ e ∈ h, e.quiet = true))
    (h := []) (fun h s a t es hI hstep => ?_) (.inr ⟨hgone, by simp⟩) hrun
  · exact (hinv.resolve_left hnone).2
  · rcases hI with hcreated | ⟨hs, hquiet⟩
    · exact .inl (by simp [hcreated])
    · rcases step_gone hs hstep with hcreated | ⟨ht, hquiet'⟩
      · exact .inl (by simp [hcreated])
      · refine .inr ⟨ht, ?_⟩
        intro e he
        rcases List.mem_append.mp he with he | he
        · exact hquiet e he
        · exact hquiet' e he

/-! ## The law -/

theorem run_inLaw {platform : Platform} {r : Runtime} {as : List Action} {es : List Event}
    (hrun : (machine platform).run {} as = some (r, es)) :
    ∃ k, workerLaw.accept {} (es.filterMap Event.workerCall) = some k ∧ r.InLaw platform k :=
  (simulates_workerLaw platform).accept_run ⟨sound_init platform, trivial, rfl⟩ hrun

/-- In every interleaving of lifecycle calls, worker and readers the calls of
each worker are complete transactions with exact counters. Once the runtime is
stopped the last worker has completed its run, and makes no further call. -/
theorem worker_transactions {platform : Platform} {r : Runtime} {as : List Action}
    {es : List Event} (hrun : (machine platform).run {} as = some (r, es)) :
    (∃ k, workerLaw.accept {} (es.filterMap Event.workerCall) = some k ∧
        (r.worker.all WorkerPc.isFinished = true → k.final = true)) ∧
      (∀ before calls, es.filterMap Event.workerCall = before ++ .created :: calls →
        (∀ e ∈ calls, e.isCreated = false) → WorkerRun calls) ∧
      (r.operation = .idle → r.lifecycle = .stopped →
        r.worker.all WorkerPc.isFinished = true ∧
          ∀ bs t fs, (machine platform).run r bs = some (t, fs) → .workerCreated ∉ fs →
            ∀ e ∈ fs, e.quiet = true) := by
  obtain ⟨k, haccept, hr, -, hlawful⟩ := run_inLaw hrun
  refine ⟨⟨k, haccept, fun hfinished => ?_⟩, fun before calls heq hcalls => ?_,
    fun hidle hstopped => ?_⟩
  · unfold Runtime.Lawful at hlawful
    cases hpc : r.worker with
    | none => simpa [hpc] using hlawful
    | some pc =>
      simp only [hpc] at hlawful
      cases pc <;> simp_all [WorkerPc.isFinished, WorkerPc.InLaw]
  · rw [heq] at haccept
    obtain ⟨k₁, -, hcreated⟩ := workerLaw.accept_append_eq_some.mp haccept
    obtain ⟨k₂, hk₂, hrest⟩ := workerLaw.accept_cons_eq_some.mp hcreated
    simp only [workerLaw, WorkerLaw.next, Option.ite_none_right_eq_some, Option.some.injEq] at hk₂
    obtain ⟨-, rfl⟩ := hk₂
    exact WorkerLaw.workerRun_of_accept hrest hcalls
  · obtain ⟨-, hgone⟩ := (hr.resting hidle).stopped hstopped
    refine ⟨?_, fun bs t fs hbs hnone => run_gone hgone hbs hnone⟩
    unfold Runtime.Gone at hgone
    cases hpc : r.worker with
    | none => rfl
    | some pc =>
      simp only [hpc] at hgone
      exact hgone.2

/-- One frame is processed; the next one arrives when a stop was requested. -/
def discardedFrameSchedule : List Action :=
  let operation (n : ℕ) : List Action := List.replicate n (.operation {})
  let worker (n : ℕ) : List Action := List.replicate n (.worker {})
  let receive : List Action := [.worker { received := .frame {} }]
  [.start] ++ operation 15 ++ worker 2 ++ receive ++ worker 9 ++ [.stop false] ++ operation 8 ++
    receive ++ worker 3 ++ operation 12

theorem worker_transactions_discarded_frame : ∃ r es snapshot,
    (machine .host).run {} discardedFrameSchedule = some (r, es) ∧
      es.filterMap Event.workerCall = [.created, .received (.frame {}), .processed {} .processed,
        .frameProcessed {} .processed, .diagnosed snapshot, .stopRequested, .received (.frame {})] ∧
      snapshot.framesProcessed = 1 ∧
      WorkerRun ((es.filterMap Event.workerCall).drop 1) ∧
      ∀ input, (machine .host).step r (.worker input) = none := by
  have hobserved : ((machine .host).run {} discardedFrameSchedule).map (fun p =>
      (p.1.operation.isIdle, p.1.lifecycle, p.1.worker.isNone,
        p.2.filterMap Event.workerCall)) =
      some (true, .stopped, true, [.created, .received (.frame {}), .processed {} .processed,
        .frameProcessed {} .processed,
        .diagnosed { lifecycle := .running, transport := .live, framesProcessed := 1,
                     hasLastFrame := true },
        .stopRequested, .received (.frame {})]) := by
    decide +kernel
  obtain ⟨⟨r, es⟩, hrun, heq⟩ := Option.map_eq_some_iff.mp hobserved
  simp only [Prod.mk.injEq] at heq
  obtain ⟨hidle, hstopped, hnone, hcalls⟩ := heq
  obtain ⟨-, hruns, -⟩ := worker_transactions hrun
  refine ⟨r, es, _, hrun, hcalls, rfl, ?_, fun input => ?_⟩
  · rw [hcalls]
    exact hruns [] _ hcalls (by decide)
  · simp [machine, step, Option.isNone_iff_eq_none.mp hnone]

end Telemetry
end VehicleCanCore

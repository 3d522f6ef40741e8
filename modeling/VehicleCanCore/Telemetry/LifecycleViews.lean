import VehicleCanCore.Telemetry.SourceProtocol

/-!
# The atomic lifecycle and the lifecycle in the diagnostics

An operation stores the atomic first and writes the record later; the fault path
of the worker does it the other way round. When a stop publishes Stopping while
the worker publishes Faulted, the last writer of the one is not the last writer
of the other, and a stop that ends with a timeout leaves them apart.
-/

namespace VehicleCanCore
namespace Telemetry

open VehicleCanCore.Core Automata

/-! ## Writes in progress -/

/-- What an operation is about to write into the record. -/
def OperationPc.pendingDiagnostic : OperationPc → Option LifecycleState
  | beginDiagnostic lifecycle _ _ | refreshDiagnostic lifecycle _ _ _
  | writeDiagnostic lifecycle _ _ => some lifecycle
  | _ => none

/-- What an operation that has written the record is about to store. -/
def OperationPc.pendingLifecycle : OperationPc → Option LifecycleState
  | storeRunning => some .running
  | _ => none

/-- Between recording a terminal outcome and storing Faulted. -/
def WorkerPc.faulting : WorkerPc → Bool
  | onFrameProcessed _ _ result _ => result = .fault
  | onDiagnostics _ outcome _ => outcome.terminal
  | storeFaulted _ _ => true
  | _ => false

/-- Between a receive return and the end of the fault path or of the callbacks. -/
def WorkerPc.inTransaction : WorkerPc → Bool
  | process _ _ _ | refresh _ _ _ _ | record _ _ _ | onFrameProcessed _ _ _ _
  | onDiagnostics _ _ _ | storeFaulted _ _ => true
  | _ => false

theorem WorkerPc.faulting_of_not_inTransaction {pc : WorkerPc} (h : pc.inTransaction = false) :
    pc.faulting = false := by
  cases pc with
  | onFrameProcessed | onDiagnostics | storeFaulted => cases h
  | _ => rfl

namespace Runtime

def faulting (r : Runtime) : Bool := r.worker.any WorkerPc.faulting

def publishing (r : Runtime) : Bool := r.operation.pendingDiagnostic = some .stopping

/-- The atomic, once the writes in progress have been made. -/
def settledLifecycle (r : Runtime) : LifecycleState :=
  if r.faulting then .faulted else r.operation.pendingLifecycle.getD r.lifecycle

/-- The record, once the writes in progress have been made. -/
def settledDiagnostic (r : Runtime) : LifecycleState :=
  r.operation.pendingDiagnostic.getD r.diagnostics.lifecycle

theorem Gone.not_faulting {platform : Platform} {r : Runtime} (h : r.Gone platform) :
    r.faulting = false := by
  unfold Gone at h
  unfold faulting
  cases hworker : r.worker with
  | none => rfl
  | some pc =>
    simp only [hworker] at h
    cases pc with
    | finished => rfl
    | _ => cases h.2

end Runtime

/-! ## Publications and their overlaps -/

/-- The beginning of a publication, during the publication of the other party or not. -/
inductive Publication
  | separate
  | overlapping
  deriving DecidableEq, Repr

def Publication.of (overlaps : Bool) : Publication := if overlaps then overlapping else separate

def OperationPc.publications (faulting : Bool) : OperationPc → List Publication
  | storeStopping _ => [.of faulting]
  | storeFinal _ => [.separate]
  | _ => []

def WorkerPc.publications (publishing : Bool) : WorkerPc → List Publication
  | record _ outcome _ => if outcome.terminal then [.of publishing] else []
  | _ => []

/-- A stop publishes Stopping from the store on, or from the call when it finds
Stopping already; the worker publishes Faulted from the record on. -/
def Runtime.publications (r : Runtime) : Action → List Publication
  | .stop false =>
    if !r.operationActive && r.stop.1.operation.pendingDiagnostic.isSome then [.of r.faulting]
    else []
  | .operation _ => r.operation.publications r.faulting
  | .worker _ => (r.worker.map (WorkerPc.publications r.publishing)).getD []
  | _ => []

/-- Whether the last publication of a schedule has overlapped another one. -/
def overlapped (platform : Platform) (as : List Action) : Prop :=
  ((machine platform).history Runtime.publications {} as).getLast? = some .overlapping

instance (platform : Platform) (as : List Action) : Decidable (overlapped platform as) :=
  inferInstanceAs (Decidable (_ = _))

/-- After an overlap the two will differ, otherwise they will agree. -/
structure Runtime.Settles (last : Option Publication) (r : Runtime) : Prop where
  overlapping : last = some .overlapping →
    r.settledLifecycle = .faulted ∧ r.settledDiagnostic = .stopping
  separate : last ≠ some .overlapping → r.settledLifecycle = r.settledDiagnostic

namespace Runtime.Settles

variable {last : Option Publication} {r r' : Runtime}

theorem congr (h : r.Settles last) (hlifecycle : r'.settledLifecycle = r.settledLifecycle)
    (hdiagnostic : r'.settledDiagnostic = r.settledDiagnostic) : r'.Settles last := by
  constructor
  · rw [hlifecycle, hdiagnostic]
    exact h.overlapping
  · rw [hlifecycle, hdiagnostic]
    exact h.separate

theorem of_agree (h : r.settledLifecycle = r.settledDiagnostic)
    (hlast : last ≠ some .overlapping) : r.Settles last :=
  ⟨fun hoverlapping => absurd hoverlapping hlast, fun _ => h⟩

/-- A publication that begins now, the other party's second write to come. -/
theorem of_publication {overlaps : Bool}
    (hlifecycle : r.settledLifecycle = if overlaps then .faulted else r.settledDiagnostic)
    (hdiagnostic : overlaps = true → r.settledDiagnostic = .stopping) :
    r.Settles (some (.of overlaps)) := by
  cases overlaps with
  | false => exact of_agree hlifecycle (by simp [Publication.of])
  | true => exact ⟨fun _ => ⟨hlifecycle, hdiagnostic rfl⟩, fun h => absurd rfl h⟩

theorem last_ne (h : r.Settles last) (hstopped : r.settledLifecycle ≠ .faulted) :
    last ≠ some .overlapping := fun hlast => hstopped (h.overlapping hlast).1

end Runtime.Settles

/-! ## The worker -/

/-- A step of the worker writes the record at the beginning of its fault path,
stores the atomic at the end of it, or leaves both and its place in the path alone. -/
inductive WorkerPc.Publishes (r r' : Runtime) (pc' : WorkerPc) : WorkerPc → Prop
  | records {b : WorkBudget} {outcome : Outcome} {time : UInt64}
    (terminal : outcome.terminal = true) (faulting : pc'.faulting = true)
    (diagnostic : r'.diagnostics.lifecycle = .faulted) : Publishes r r' pc' (.record b outcome time)
  | stores {b : WorkBudget} {outcome : Outcome} (faulting : pc'.faulting = false)
    (lifecycle : r'.lifecycle = .faulted)
    (diagnostic : r'.diagnostics.lifecycle = r.diagnostics.lifecycle) :
    Publishes r r' pc' (.storeFaulted b outcome)
  | spares {pc : WorkerPc} (began : ∀ publishing, pc.publications publishing = [])
    (faulting : pc'.faulting = pc.faulting) (lifecycle : r'.lifecycle = r.lifecycle)
    (diagnostic : r'.diagnostics.lifecycle = r.diagnostics.lifecycle) : Publishes r r' pc' pc

theorem recordOutcome_lifecycle (r : Runtime) (outcome : Outcome) (time : UInt64) :
    (r.recordOutcome outcome time).lifecycle = r.lifecycle ∧
      (r.recordOutcome outcome time).diagnostics.lifecycle =
        if outcome.terminal then .faulted else r.diagnostics.lifecycle := by
  cases outcome with
  | frame frame result => cases result <;> exact ⟨rfl, rfl⟩
  | fault | notStarted => exact ⟨rfl, rfl⟩
  | timeout =>
    rw [if_neg (by simp [Outcome.terminal])]
    simp only [Runtime.recordOutcome]
    split_ifs
    · exact ⟨rfl, rfl⟩
    · obtain ⟨transport, heq⟩ := Runtime.updateSilenceDiagnostic_eq
        { r with diagnostics := { r.diagnostics with acquisition := r.acquisitionStatisticsCache } }
        time
      rw [heq]
      exact ⟨rfl, rfl⟩

theorem workerStep_publishes {r r' : Runtime} {input : WorkerInput} {pc pc' : WorkerPc}
    {es : List Event} (hstep : workerStep r input pc = some (r', pc', es)) :
    WorkerPc.Publishes r r' pc' pc := by
  cases pc with
  | finished => cases hstep
  | record budget outcome time =>
    obtain ⟨hlifecycle, hdiagnostic⟩ := recordOutcome_lifecycle r outcome time
    cases hstep
    by_cases hterminal : outcome.terminal = true
    · rw [if_pos hterminal] at hdiagnostic
      refine .records hterminal ?_ hdiagnostic
      cases outcome with
      | frame frame result => cases result <;> first | rfl | cases hterminal
      | fault | notStarted => rfl
      | timeout => cases hterminal
    · rw [if_neg hterminal] at hdiagnostic
      refine .spares (fun _ => if_neg hterminal) ?_ hlifecycle hdiagnostic
      cases outcome with
      | frame frame result => cases result <;> first | rfl | exact absurd rfl hterminal
      | fault | notStarted => exact absurd rfl hterminal
      | timeout => rfl
  | storeFaulted budget outcome =>
    cases hstep
    exact .stores rfl rfl rfl
  | onFrameProcessed budget frame result snapshot =>
    cases hstep
    exact .spares (fun _ => rfl) (by cases result <;> rfl) rfl rfl
  | onDiagnostics budget outcome snapshot =>
    cases hstep
    refine .spares (fun _ => rfl) ?_ rfl rfl
    split_ifs with hterminal
    · exact hterminal.symm
    · exact (Bool.eq_false_iff.mpr hterminal).symm
  | received budget status time =>
    simp only [workerStep] at hstep
    split_ifs at hstep
    · cases hstep
      exact .spares (fun _ => rfl) rfl rfl rfl
    · cases status <;> cases hstep <;> exact .spares (fun _ => rfl) rfl rfl rfl
  | refresh budget outcome time pc =>
    simp only [workerStep, Option.map_eq_some_iff, Prod.exists] at hstep
    obtain ⟨r'', pc'', hrefresh, heq⟩ := hstep
    obtain ⟨_, _, _, _, rfl⟩ := Runtime.refreshStep_eq hrefresh
    cases heq
    exact .spares (fun _ => rfl) (by cases pc'' <;> rfl) rfl rfl
  | afterReceive budget outcome =>
    simp only [workerStep] at hstep
    split at hstep <;> cases hstep <;> exact .spares (fun _ => rfl) rfl rfl rfl
  | checkpoint budget action =>
    obtain ⟨transport, heq⟩ := Runtime.updateSilenceDiagnostic_eq r input.now
    simp only [workerStep, heq] at hstep
    cases hstep
    exact .spares (fun _ => rfl) (by split <;> rfl) rfl rfl
  | loopHead | completed | batchDone | beginPause | pause =>
    cases hstep
    exact .spares (fun _ => rfl) (by split <;> rfl) rfl rfl
  | _ =>
    cases hstep
    exact .spares (fun _ => rfl) rfl rfl rfl

/-! ## Operations -/

/-- Only Stopping is published beside a worker. -/
def OperationPc.Alone (platform : Platform) (r : Runtime) : OperationPc → Prop
  | storeFinal _ => r.Gone platform
  | beginDiagnostic lifecycle _ _ | refreshDiagnostic lifecycle _ _ _
  | writeDiagnostic lifecycle _ _ => lifecycle = .stopping ∨ r.Gone platform
  | _ => True

def OperationPc.Settled (pc : OperationPc) : Prop :=
  pc.pendingDiagnostic = none ∧ pc.pendingLifecycle = none

theorem OperationPc.AfterCleanup.settled {pc : OperationPc} (h : pc.AfterCleanup) :
    pc.Settled := by
  cases h <;> exact ⟨rfl, rfl⟩

theorem settled_next (next : AfterDiagnostic) : next.pc.Settled := by
  cases next <;> exact ⟨rfl, rfl⟩

theorem alone_afterSourceStop {platform : Platform} {r : Runtime} {caller : Cleaner}
    (h : caller.Stopping platform r) (cleanup : ResultCode) :
    (afterSourceStop cleanup caller).Alone platform r := by
  cases caller with
  | start => exact h
  | stop =>
    simp only [afterSourceStop]
    split_ifs <;> trivial
  | destroy final => cases final <;> trivial

theorem alone_afterPartialCleanup {platform : Platform} {r : Runtime} {caller : Cleaner}
    (h : caller.MayCleanUp platform r) (cleanup : ResultCode) :
    (afterPartialCleanup cleanup caller).Alone platform r := by
  cases caller with
  | start | stop => exact h
  | destroy final => cases final <;> trivial

theorem alone_next {platform : Platform} {r : Runtime} (next : AfterDiagnostic) :
    next.pc.Alone platform r := by
  cases next <;> trivial

theorem OperationPc.Alone.congr {platform : Platform} {r r' : Runtime} {pc : OperationPc}
    (h : pc.Alone platform r) (hworker : r'.worker = r.worker) : pc.Alone platform r' := by
  cases pc with
  | storeFinal => exact Runtime.Gone.congr h hworker
  | beginDiagnostic | refreshDiagnostic | writeDiagnostic =>
    exact h.imp_right fun hgone => hgone.congr hworker
  | _ => trivial

theorem OperationPc.Alone.beside {platform : Platform} {r : Runtime} {pc : OperationPc}
    (h : pc.Alone platform r) (hrunning : ¬ r.Gone platform) (r' : Runtime) :
    pc.Alone platform r' := by
  cases pc with
  | storeFinal => exact absurd h hrunning
  | beginDiagnostic | refreshDiagnostic | writeDiagnostic => exact .inl (h.resolve_right hrunning)
  | _ => trivial

theorem operationStep_alone {platform : Platform} {r r' : Runtime} {input : OperationInput}
    {pc pc' : OperationPc} {es : List Event} (hannounced : r.WorkerAnnounced)
    (howned : pc.Owned platform r) (hpc : pc.Alone platform r)
    (hstep : operationStep platform r input pc = some (r', pc', es)) : pc'.Alone platform r' := by
  cases pc with
  | idle | destroyed => cases hstep
  | storeStopping next =>
    cases hstep
    exact .inl rfl
  | storeFinal e =>
    cases hstep
    exact .inr (hpc.congr rfl)
  | beginDiagnostic lifecycle transport next =>
    cases hstep
    exact hpc
  | writeDiagnostic lifecycle transport next =>
    cases hstep
    exact alone_next next
  | refresh pc =>
    simp only [operationStep, Option.map_eq_some_iff, Prod.exists] at hstep
    obtain ⟨r'', pc'', hrefresh, heq⟩ := hstep
    cases heq
    cases pc'' <;> trivial
  | refreshDiagnostic lifecycle transport next pc =>
    simp only [operationStep, Option.map_eq_some_iff, Prod.exists] at hstep
    obtain ⟨r'', pc'', hrefresh, heq⟩ := hstep
    obtain ⟨_, _, _, _, rfl⟩ := Runtime.refreshStep_eq hrefresh
    cases heq
    cases pc'' <;> exact hpc
  | awaitStart =>
    simp only [operationStep] at hstep
    split_ifs at hstep <;> cases hstep
    · trivial
    · trivial
    all_goals exact .inr (howned.1.2.congr rfl)
  | createWorker =>
    simp only [operationStep] at hstep
    split_ifs at hstep <;> cases hstep <;> trivial
  | awaitWorker result =>
    simp only [operationStep] at hstep
    split_ifs at hstep with hgone <;> cases hstep
    · exact Runtime.gone_join hannounced hgone
    · trivial
  | joinWorker =>
    simp only [operationStep] at hstep
    split_ifs at hstep
    cases hstep
    trivial
  | attemptStop caller =>
    simp only [operationStep] at hstep
    split at hstep <;> cases hstep
    · exact alone_afterSourceStop howned.2 _
    · trivial
  | cleanUp caller =>
    simp only [operationStep] at hstep
    split at hstep <;> cases hstep
    · exact alone_afterPartialCleanup howned.2 _
    · trivial
  | awaitStop caller =>
    cases hstep
    exact (alone_afterSourceStop howned.2.2 _).congr rfl
  | awaitCleanup caller =>
    cases hstep
    exact (alone_afterPartialCleanup howned.2.2 _).congr rfl
  | requestStop caller =>
    cases hstep
    cases caller with
    | start | stop => trivial
    | destroy final => exact destroyBy_of (P := OperationPc.Alone _ _) trivial trivial trivial
  | retryCleanup =>
    cases hstep
    split_ifs
    · exact destroyBy_of (P := OperationPc.Alone _ _) trivial trivial trivial
    · trivial
  | _ =>
    cases hstep
    trivial

theorem Runtime.Settles.spared {last : Option Publication} {r r' : Runtime} (h : r.Settles last)
    (hfaulting : r'.faulting = r.faulting) (hlifecycle : r'.lifecycle = r.lifecycle)
    (hdiagnostic : r'.diagnostics.lifecycle = r.diagnostics.lifecycle)
    (hpending : r'.operation.pendingDiagnostic = r.operation.pendingDiagnostic ∧
      r'.operation.pendingLifecycle = r.operation.pendingLifecycle) : r'.Settles last := by
  apply h.congr
  · rw [settledLifecycle, settledLifecycle, hfaulting, hlifecycle, hpending.2]
  · rw [settledDiagnostic, settledDiagnostic, hdiagnostic, hpending.1]

theorem Runtime.Settles.settled {last : Option Publication} {r r' : Runtime}
    {pc pc' : OperationPc} (h : r.Settles last) (hop : r.operation = pc) (hpc : pc.Settled)
    (hpc' : pc'.Settled) (hfaulting : r'.faulting = r.faulting)
    (hlifecycle : r'.lifecycle = r.lifecycle)
    (hdiagnostic : r'.diagnostics.lifecycle = r.diagnostics.lifecycle) :
    ({ r' with operation := pc' } : Runtime).Settles last := by
  subst hop
  exact h.spared hfaulting hlifecycle hdiagnostic
    ⟨hpc'.1.trans hpc.1.symm, hpc'.2.trans hpc.2.symm⟩

/-- An operation that starts from Stopped has no overlap behind it. -/
theorem Runtime.Settles.last_ne_of_stopped {last : Option Publication} {r : Runtime}
    (h : r.Settles last) (hfaulting : r.faulting = false) (hlifecycle : r.lifecycle = .stopped)
    (hpending : r.operation.pendingLifecycle = none) : last ≠ some .overlapping := by
  apply h.last_ne
  simp [settledLifecycle, hfaulting, hlifecycle, hpending]

theorem Runtime.not_faulting_of_workerGone {platform : Platform} {r : Runtime}
    (hannounced : r.WorkerAnnounced) (h : r.workerGone platform = true) : r.faulting = false := by
  cases hworker : r.worker with
  | none => simp [faulting, hworker]
  | some pc =>
    have hfinished := hannounced.finished h hworker
    cases pc with
    | finished => simp [faulting, hworker, WorkerPc.faulting]
    | _ => cases hfinished

theorem Runtime.Settles.joined {last : Option Publication} {platform : Platform} {r : Runtime}
    {pc pc' : OperationPc} (h : r.Settles last) (hop : r.operation = pc) (hpc : pc.Settled)
    (hpc' : pc'.Settled) (hfaulting : r.faulting = false) :
    ({ r.join platform with operation := pc' } : Runtime).Settles last := by
  cases platform with
  | host => exact h.settled hop hpc hpc' hfaulting.symm rfl rfl
  | esp => exact h.settled hop hpc hpc' rfl rfl rfl

theorem operationStep_settles {platform : Platform} {r r' : Runtime} {input : OperationInput}
    {pc pc' : OperationPc} {es : List Event} {last : Option Publication} (hop : r.operation = pc)
    (hannounced : r.WorkerAnnounced) (howned : pc.Owned platform r) (halone : pc.Alone platform r)
    (h : r.Settles last) (hstep : operationStep platform r input pc = some (r', pc', es)) :
    ({ r' with operation := pc' } : Runtime).Settles
      ((pc.publications r.faulting).getLast?.or last) := by
  cases pc with
  | idle | destroyed => cases hstep
  | storeStopping next =>
    cases hstep
    exact Runtime.Settles.of_publication rfl fun _ => rfl
  | storeFinal e =>
    cases hstep
    have hfaulting : r.faulting = false := Runtime.Gone.not_faulting halone
    refine Runtime.Settles.of_agree ?_ (by simp [OperationPc.publications])
    change (if r.faulting then _ else e.lifecycle) = e.lifecycle
    rw [hfaulting]
    rfl
  | beginDiagnostic lifecycle transport next =>
    cases hstep
    exact h.spared rfl rfl rfl (by rw [hop]; exact ⟨rfl, rfl⟩)
  | refreshDiagnostic lifecycle transport next pc =>
    simp only [operationStep, Option.map_eq_some_iff, Prod.exists] at hstep
    obtain ⟨r'', pc'', hrefresh, heq⟩ := hstep
    obtain ⟨_, _, _, _, rfl⟩ := Runtime.refreshStep_eq hrefresh
    cases heq
    refine h.spared rfl rfl rfl ?_
    rw [hop]
    cases pc'' <;> exact ⟨rfl, rfl⟩
  | writeDiagnostic lifecycle transport next =>
    cases hstep
    obtain ⟨hdiagnostic, hlifecycle⟩ := settled_next next
    apply h.congr
    · simp only [Runtime.settledLifecycle, hop, hlifecycle]
      rfl
    · simp only [Runtime.settledDiagnostic, hop, hdiagnostic]
      rfl
  | resetDiagnostics =>
    cases hstep
    have hfaulting : r.faulting = false := Runtime.Gone.not_faulting howned.2.1
    have hlast := h.last_ne_of_stopped hfaulting howned.2.2.1 (by rw [hop]; rfl)
    refine Runtime.Settles.of_agree ?_ hlast
    change (if r.faulting then _ else LifecycleState.running) = _
    rw [hfaulting]
    rfl
  | storeRunning =>
    cases hstep
    apply h.congr
    · simp only [Runtime.settledLifecycle, hop]
      rfl
    · simp only [Runtime.settledDiagnostic, hop]
      rfl
  | refresh pc =>
    simp only [operationStep, Option.map_eq_some_iff, Prod.exists] at hstep
    obtain ⟨r'', pc'', hrefresh, heq⟩ := hstep
    obtain ⟨_, _, _, _, rfl⟩ := Runtime.refreshStep_eq hrefresh
    cases heq
    exact h.settled hop ⟨rfl, rfl⟩ (by cases pc'' <;> exact ⟨rfl, rfl⟩) rfl rfl rfl
  | awaitStart =>
    simp only [operationStep] at hstep
    split_ifs at hstep <;> cases hstep
    · exact h.settled hop ⟨rfl, rfl⟩ ⟨rfl, rfl⟩ rfl rfl rfl
    · exact h.settled hop ⟨rfl, rfl⟩ ⟨rfl, rfl⟩ rfl rfl rfl
    all_goals
      have hfaulting : r.faulting = false := Runtime.Gone.not_faulting howned.1.2
      refine Runtime.Settles.of_agree ?_
        (h.last_ne_of_stopped hfaulting howned.2 (by rw [hop]; rfl))
      change (if r.faulting then _ else r.lifecycle) = .stopped
      rw [hfaulting]
      exact howned.2
  | createWorker =>
    have hfaulting : r.faulting = false := Runtime.Gone.not_faulting howned.2.1
    simp only [operationStep] at hstep
    split_ifs at hstep <;> cases hstep
    · exact h.settled hop ⟨rfl, rfl⟩ ⟨rfl, rfl⟩ hfaulting.symm rfl rfl
    · exact h.settled hop ⟨rfl, rfl⟩ ⟨rfl, rfl⟩ rfl rfl rfl
  | awaitWorker result =>
    simp only [operationStep] at hstep
    split_ifs at hstep with hgone <;> cases hstep
    · exact h.joined hop ⟨rfl, rfl⟩ ⟨rfl, rfl⟩ (Runtime.not_faulting_of_workerGone hannounced hgone)
    · exact h.settled hop ⟨rfl, rfl⟩ ⟨rfl, rfl⟩ rfl rfl rfl
  | joinWorker =>
    simp only [operationStep] at hstep
    split_ifs at hstep with hgone
    cases hstep
    exact h.joined hop ⟨rfl, rfl⟩ ⟨rfl, rfl⟩ (Runtime.not_faulting_of_workerGone hannounced hgone)
  | attemptStop caller =>
    simp only [operationStep] at hstep
    split at hstep <;> cases hstep
    · exact h.settled hop ⟨rfl, rfl⟩ (afterSourceStop_afterCleanup _ _).settled rfl rfl rfl
    · exact h.settled hop ⟨rfl, rfl⟩ ⟨rfl, rfl⟩ rfl rfl rfl
  | cleanUp caller =>
    simp only [operationStep] at hstep
    split at hstep <;> cases hstep
    · exact h.settled hop ⟨rfl, rfl⟩ (afterPartialCleanup_afterCleanup _ _).settled rfl rfl rfl
    · exact h.settled hop ⟨rfl, rfl⟩ ⟨rfl, rfl⟩ rfl rfl rfl
  | awaitStop caller =>
    cases hstep
    exact h.settled hop ⟨rfl, rfl⟩ (afterSourceStop_afterCleanup _ _).settled rfl rfl rfl
  | awaitCleanup caller =>
    cases hstep
    exact h.settled hop ⟨rfl, rfl⟩ (afterPartialCleanup_afterCleanup _ _).settled rfl rfl rfl
  | requestStop caller =>
    cases hstep
    refine h.settled hop ⟨rfl, rfl⟩ ?_ rfl rfl rfl
    cases caller with
    | start | stop => exact ⟨rfl, rfl⟩
    | destroy final => exact destroyBy_of ⟨rfl, rfl⟩ ⟨rfl, rfl⟩ ⟨rfl, rfl⟩
  | retryCleanup =>
    cases hstep
    refine h.settled hop ⟨rfl, rfl⟩ ?_ rfl rfl rfl
    split_ifs
    · exact destroyBy_of ⟨rfl, rfl⟩ ⟨rfl, rfl⟩ ⟨rfl, rfl⟩
    · exact ⟨rfl, rfl⟩
  | _ =>
    cases hstep
    exact h.settled hop ⟨rfl, rfl⟩ ⟨rfl, rfl⟩ rfl rfl rfl

/-! ## All threads together -/

structure Runtime.InViews (platform : Platform) (last : Option Publication) (r : Runtime) :
    Prop where
  sound : r.Sound platform
  alone : r.operation.Alone platform r
  settles : r.Settles last

/-- Beside a worker no operation is about to store Running, and Stopping is the
only thing that one can be about to write. -/
theorem Runtime.InViews.pending {platform : Platform} {last : Option Publication} {r : Runtime}
    (hr : r.InViews platform last) (hrunning : ¬ r.Gone platform) :
    r.operation.pendingLifecycle = none ∧
      r.operation.pendingDiagnostic = if r.publishing then some .stopping else none := by
  have howned := hr.sound.owned
  have halone := hr.alone
  unfold publishing
  cases hop : r.operation with
  | storeRunning =>
    rw [hop] at howned
    exact absurd howned.2.1 hrunning
  | beginDiagnostic | refreshDiagnostic | writeDiagnostic =>
    rw [hop] at halone
    obtain rfl := halone.resolve_right hrunning
    exact ⟨rfl, rfl⟩
  | _ => exact ⟨rfl, rfl⟩

theorem workerStep_settles {platform : Platform} {last : Option Publication} {r r' : Runtime}
    {pc pc' : WorkerPc} (hr : r.InViews platform last) (active : r.worker = some pc)
    (hrunning : pc.isFinished = false) (hoperation : r'.operation = r.operation)
    (hpublishes : WorkerPc.Publishes r r' pc' pc) :
    ({ r' with worker := some pc' } : Runtime).Settles
      ((pc.publications r.publishing).getLast?.or last) := by
  obtain ⟨hpending, hdiagnostic⟩ := hr.pending (Runtime.Gone.not_running active hrunning)
  have hbefore : r.faulting = pc.faulting := by simp [Runtime.faulting, active]
  cases hpublishes with
  | @records b outcome time terminal faulting diagnostic =>
    simp only [WorkerPc.publications, if_pos terminal]
    apply Runtime.Settles.of_publication
    · simp only [Runtime.settledLifecycle, Runtime.settledDiagnostic, Runtime.faulting,
        Option.any_some, faulting, diagnostic, hoperation, hdiagnostic]
      cases r.publishing <;> rfl
    · intro hpublishing
      simp [Runtime.settledDiagnostic, hoperation, hdiagnostic, hpublishing]
  | stores faulting lifecycle diagnostic =>
    apply hr.settles.congr
    · simp [Runtime.settledLifecycle, Runtime.faulting, active, lifecycle, hoperation, hpending,
        WorkerPc.faulting]
    · simp only [Runtime.settledDiagnostic, hoperation, diagnostic]
  | spares began faulting lifecycle diagnostic =>
    rw [began]
    refine hr.settles.spared ?_ lifecycle diagnostic (by rw [hoperation]; exact ⟨rfl, rfl⟩)
    rw [hbefore]
    exact faulting

theorem stop_inViews {platform : Platform} {last : Option Publication} {r t : Runtime}
    {es : List Event} (hr : r.InViews platform last) (hsound : t.Sound platform)
    (hstep : step platform r (.stop false) = some (t, es)) :
    t.InViews platform ((r.publications (.stop false)).getLast?.or last) := by
  simp only [step] at hstep
  split_ifs at hstep with husable
  by_cases hbusy : r.operationActive = true
  · simp only [Runtime.stop, if_pos hbusy] at hstep
    cases hstep
    simpa [Runtime.publications, hbusy] using hr
  have hidle := hr.sound.idle (Bool.eq_false_iff.mpr hbusy) (Bool.eq_false_iff.mpr husable)
  simp only [Runtime.stop, if_neg hbusy] at hstep
  split_ifs at hstep with hnothing hpartialStart hstopping <;> cases hstep
  · simpa [Runtime.publications, Runtime.stop, hbusy, hnothing, hidle,
      OperationPc.pendingDiagnostic] using hr
  · have hsilent : r.publications (.stop false) = [] := by
      simp [Runtime.publications, Runtime.stop, hbusy, hnothing, hpartialStart,
        OperationPc.pendingDiagnostic]
    rw [hsilent]
    exact ⟨hsound, trivial, hr.settles.spared rfl rfl rfl (by rw [hidle]; exact ⟨rfl, rfl⟩)⟩
  · have hpublishes : r.publications (.stop false) = [.of r.faulting] := by
      simp [Runtime.publications, Runtime.stop, hbusy, hpartialStart, hstopping,
        OperationPc.pendingDiagnostic]
    rw [hpublishes]
    refine ⟨hsound, .inl rfl, Runtime.Settles.of_publication ?_ fun _ => rfl⟩
    change (if r.faulting then _ else r.lifecycle) = if r.faulting then _ else .stopping
    rw [hstopping]
  · have hsilent : r.publications (.stop false) = [] := by
      simp [Runtime.publications, Runtime.stop, hbusy, hnothing, hpartialStart, hstopping,
        OperationPc.pendingDiagnostic]
    rw [hsilent]
    exact ⟨hsound, trivial, hr.settles.spared rfl rfl rfl (by rw [hidle]; exact ⟨rfl, rfl⟩)⟩

theorem step_inViews {platform : Platform} {last : Option Publication} {r t : Runtime}
    {a : Action} {es : List Event} (hr : r.InViews platform last)
    (hstep : step platform r a = some (t, es)) :
    t.InViews platform ((r.publications a).getLast?.or last) := by
  have hsound := step_sound hr.sound hstep
  cases a with
  | configure config =>
    cases step_cases hstep with
    | configure =>
      exact ⟨hsound, hr.alone.congr rfl, hr.settles.spared rfl rfl rfl ⟨rfl, rfl⟩⟩
    | refused => exact hr
  | start =>
    cases step_cases hstep with
    | start free stopped usable valid =>
      have hidle := hr.sound.idle free usable
      exact ⟨hsound, trivial, hr.settles.spared rfl rfl rfl (by rw [hidle]; exact ⟨rfl, rfl⟩)⟩
    | refused => exact hr
  | stop byWorker =>
    cases byWorker with
    | true =>
      cases step_cases hstep
      exact hr
    | false => exact stop_inViews hr hsound hstep
  | destroy =>
    cases step_cases hstep with
    | destroy idle =>
      exact ⟨hsound, trivial, hr.settles.spared rfl rfl rfl (by rw [idle]; exact ⟨rfl, rfl⟩)⟩
    | refused => exact hr
  | operation input =>
    obtain ⟨r', pc, hop, rfl⟩ := step_operation hstep
    have halone := operationStep_alone hr.sound.announced hr.sound.owned hr.alone hop
    exact ⟨hsound, halone.congr rfl,
      operationStep_settles rfl hr.sound.announced hr.sound.owned hr.alone hr.settles hop⟩
  | worker input =>
    obtain ⟨pc, r', pc', active, hworker, rfl⟩ := step_worker hstep
    have heffect := workerStep_effect hworker
    have hrunning : ¬ r.Gone platform := Runtime.Gone.not_running active heffect.running
    have hsettles := workerStep_settles hr active heffect.running heffect.operation
      (workerStep_publishes hworker)
    refine ⟨hsound, ?_, ?_⟩
    · simp only [heffect.operation]
      exact hr.alone.beside hrunning _
    · simp only [Runtime.publications, active]
      exact hsettles
  | diagnostics now =>
    obtain ⟨-, rfl, rfl⟩ := step_diagnostics hstep
    obtain ⟨transport, heq⟩ := Runtime.updateSilenceDiagnostic_eq r now
    rw [heq] at hsound ⊢
    exact ⟨hsound, hr.alone.congr rfl, hr.settles.spared rfl rfl rfl ⟨rfl, rfl⟩⟩

theorem run_inViews {platform : Platform} {as : List Action} {r : Runtime} {es : List Event}
    (hrun : (machine platform).run {} as = some (r, es)) :
    r.InViews platform ((machine platform).history Runtime.publications {} as).getLast? := by
  refine (machine platform).run_history (I := fun l r => r.InViews platform l.getLast?)
    (h := []) ?_ ?_ hrun
  · intro l r a t es hr hstep
    rw [List.getLast?_append]
    exact step_inViews hr hstep
  · exact ⟨sound_init platform, trivial, Runtime.Settles.of_agree rfl (by simp)⟩

/-- In every run, with no operation in progress and no transaction under way, the
two views of the lifecycle agree if and only if the last publication has not
overlapped one of the other party. -/
theorem lifecycle_views_agree_iff {platform : Platform} {as : List Action} {r : Runtime}
    {es : List Event} (hrun : (machine platform).run {} as = some (r, es))
    (hidle : r.operation = .idle) (hworker : ∀ pc, r.worker = some pc → pc.inTransaction = false)
    (now : UInt64) :
    (r.updateSilenceDiagnostic now).diagnostics.lifecycle = r.lifecycle ↔
      ¬ overlapped platform as := by
  have hsettles := (run_inViews hrun).settles
  have hfaulting : r.faulting = false := by
    unfold Runtime.faulting
    cases hpc : r.worker with
    | none => rfl
    | some pc => exact WorkerPc.faulting_of_not_inTransaction (hworker pc hpc)
  have hlifecycle : r.settledLifecycle = r.lifecycle := by
    simp [Runtime.settledLifecycle, hfaulting, hidle, OperationPc.pendingLifecycle]
  have hdiagnostic :
      r.settledDiagnostic = (r.updateSilenceDiagnostic now).diagnostics.lifecycle := by
    obtain ⟨transport, heq⟩ := Runtime.updateSilenceDiagnostic_eq r now
    simp [Runtime.settledDiagnostic, hidle, OperationPc.pendingDiagnostic, heq]
  rw [← hlifecycle, ← hdiagnostic]
  constructor
  · intro hagree hoverlapped
    obtain ⟨hfaulted, hstopping⟩ := hsettles.overlapping hoverlapped
    simp [hfaulted, hstopping] at hagree
  · exact fun hseparate => (hsettles.separate hseparate).symm

/-- The source faults, and a stop ends because the source does not stop in time;
`before` and `after` are the steps that the worker takes before the stop and
after the stop has published Stopping. -/
def faultThenStopSchedule (before after : ℕ) : List Action :=
  let operation (n : ℕ) : List Action := List.replicate n (.operation {})
  let worker (n : ℕ) : List Action := List.replicate n (.worker {})
  [.start] ++ operation 15 ++ worker 2 ++ [.worker { received := .fault }] ++ worker before ++
    [.stop false] ++ operation 7 ++ worker after ++ operation 2 ++
    [.operation { result := .timeout }, .operation {}]

/-- A fault path that is over before the stop is no overlap; both views tell of the stop. -/
theorem lifecycle_views_agree_iff_in_turn : ∃ r es,
    (machine .esp).run {} (faultThenStopSchedule 12 0) = some (r, es) ∧
      r.lifecycle = .stopping ∧
        ∀ now, (r.updateSilenceDiagnostic now).diagnostics.lifecycle = .stopping := by
  have hobserved : ((machine .esp).run {} (faultThenStopSchedule 12 0)).map (fun p =>
      (p.1.operation.isIdle, p.1.worker.any WorkerPc.inTransaction, p.1.lifecycle)) =
      some (true, false, .stopping) := by decide +kernel
  have hseparate : ¬ overlapped .esp (faultThenStopSchedule 12 0) := by decide +kernel
  obtain ⟨⟨r, es⟩, hrun, heq⟩ := Option.map_eq_some_iff.mp hobserved
  simp only [Prod.mk.injEq, OperationPc.isIdle_iff] at heq
  obtain ⟨hidle, hworker, hlifecycle⟩ := heq
  have hrest : ∀ pc, r.worker = some pc → pc.inTransaction = false := by
    intro pc hpc
    simpa [hpc] using hworker
  refine ⟨r, es, hrun, hlifecycle, fun now => ?_⟩
  exact ((lifecycle_views_agree_iff hrun hidle hrest now).mpr hseparate).trans hlifecycle

/-- The worker has recorded its fault when the stop publishes Stopping, and stores
Faulted after it. At rest the atomic is faulted and the record still stopping. -/
theorem lifecycle_views_differ : ¬ ∀ (as : List Action) (r : Runtime) (es : List Event),
    (machine .host).run {} as = some (r, es) → r.operation = .idle →
      (∀ pc, r.worker = some pc → pc.inTransaction = false) →
        ∀ now, (r.updateSilenceDiagnostic now).diagnostics.lifecycle = r.lifecycle := by
  intro h
  have hobserved : ((machine .host).run {} (faultThenStopSchedule 6 6)).map (fun p =>
      (p.1.operation.isIdle, p.1.worker.any WorkerPc.inTransaction, p.1.lifecycle,
        (p.1.updateSilenceDiagnostic 0).diagnostics.lifecycle)) =
      some (true, false, .faulted, .stopping) := by decide +kernel
  obtain ⟨⟨r, es⟩, hrun, heq⟩ := Option.map_eq_some_iff.mp hobserved
  simp only [Prod.mk.injEq, OperationPc.isIdle_iff] at heq
  obtain ⟨hidle, hworker, hlifecycle, hdiagnostic⟩ := heq
  have hagree := h _ r es hrun hidle (fun pc hpc => by simpa [hpc] using hworker) 0
  simp [hlifecycle, hdiagnostic] at hagree

end Telemetry
end VehicleCanCore

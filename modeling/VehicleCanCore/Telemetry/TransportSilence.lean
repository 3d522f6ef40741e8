import VehicleCanCore.Telemetry.SourceProtocol

/-!
# Transport health as a function of the frames and evaluations of a run

Frames, timeouts, checkpoints and readers write the same field, each with a
clock sample taken before the lock. While the runtime is running, the field is
determined by the last frame recorded and the samples evaluated since.
-/

namespace VehicleCanCore
namespace Telemetry

open VehicleCanCore.Core Automata

/-! ## What happens to the transport health, in the order of the lock -/

/-- A terminal outcome is the fault of the processor, of the source, or its end. -/
inductive TrafficEvent
  | began
  | frame (time : UInt64)
  | evaluated (now : UInt64)
  | terminal
  deriving DecidableEq, Repr

def Outcome.traffic (time : UInt64) : Outcome → List TrafficEvent
  | .frame _ .fault => [.frame time, .terminal]
  | .frame _ _ => [.frame time]
  | .timeout => [.evaluated time]
  | .fault | .notStarted => [.terminal]

def WorkerPc.traffic (input : WorkerInput) : WorkerPc → List TrafficEvent
  | record _ outcome time => outcome.traffic time
  | checkpoint _ _ => [.evaluated input.now]
  | _ => []

def OperationPc.traffic : OperationPc → List TrafficEvent
  | storeRunning => [.began]
  | _ => []

/-- A run begins when the lifecycle becomes running; a timeout, a checkpoint and
a reader evaluate the silence with their own samples. -/
def Runtime.traffic (r : Runtime) : Action → List TrafficEvent
  | .operation _ => r.operation.traffic
  | .worker input => (r.worker.map (WorkerPc.traffic input)).getD []
  | .diagnostics now => [.evaluated now]
  | _ => []

/-- The part of a history that decides: the time of the last frame of the run
and the samples evaluated since, and whether a terminal outcome was recorded. -/
structure TrafficHistory where
  lastFrame : Option UInt64 := none
  samples : List UInt64 := []
  terminal : Bool := false
  deriving DecidableEq, Repr

namespace TrafficHistory

def next (h : TrafficHistory) : TrafficEvent → TrafficHistory
  | .began => {}
  | .frame time => { h with lastFrame := some time, samples := [] }
  | .evaluated now => { h with samples := h.samples ++ [now] }
  | .terminal => { h with terminal := true }

def after (h : TrafficHistory) (es : List TrafficEvent) : TrafficHistory := es.foldl next h

@[simp] theorem after_nil (h : TrafficHistory) : h.after [] = h := rfl

@[simp] theorem after_cons (h : TrafficHistory) (e : TrafficEvent) (es : List TrafficEvent) :
    h.after (e :: es) = (h.next e).after es := rfl

theorem after_append (h : TrafficHistory) (es fs : List TrafficEvent) :
    h.after (es ++ fs) = (h.after es).after fs := List.foldl_append

/-- Some evaluation since the frame recorded at `time` has found it too old. -/
def Silent (h : TrafficHistory) (timeoutUs time : UInt64) : Prop :=
  ∃ now ∈ h.samples, elapsed now time timeoutUs = true

instance (h : TrafficHistory) (timeoutUs time : UInt64) : Decidable (h.Silent timeoutUs time) :=
  decidable_of_iff (h.samples.any (elapsed · time timeoutUs) = true) (by simp [Silent])

def transport (h : TrafficHistory) (timeoutUs : UInt64) : TransportHealth :=
  match h.lastFrame with
  | none => .awaitingTraffic
  | some time => if h.Silent timeoutUs time then .timedOut else .live

theorem transport_of_none {h : TrafficHistory} (hframe : h.lastFrame = none) (timeoutUs : UInt64) :
    h.transport timeoutUs = .awaitingTraffic := by
  simp only [transport, hframe]

theorem transport_of_some {h : TrafficHistory} {time : UInt64} (hframe : h.lastFrame = some time)
    (timeoutUs : UInt64) :
    h.transport timeoutUs = if h.Silent timeoutUs time then .timedOut else .live := by
  simp only [transport, hframe]

/-- The record shows what the history of the run tells. -/
structure ShownBy (h : TrafficHistory) (timeoutUs : UInt64) (d : TransportDiagnostics) : Prop where
  hasLastFrame : d.hasLastFrame = h.lastFrame.isSome
  lastFrame : ∀ time, h.lastFrame = some time → d.lastFrameUs = time
  transport : d.transport = h.transport timeoutUs

theorem silent_evaluated (h : TrafficHistory) (timeoutUs time now : UInt64) :
    (h.next (.evaluated now)).Silent timeoutUs time ↔
      h.Silent timeoutUs time ∨ elapsed now time timeoutUs = true := by
  simp only [Silent, next, List.mem_append, List.mem_singleton]
  constructor
  · rintro ⟨sample, hmem | rfl, helapsed⟩
    · exact .inl ⟨sample, hmem, helapsed⟩
    · exact .inr helapsed
  · rintro (⟨sample, hmem, helapsed⟩ | helapsed)
    · exact ⟨sample, .inl hmem, helapsed⟩
    · exact ⟨now, .inr rfl, helapsed⟩

end TrafficHistory

/-- While the runtime is running and no terminal outcome was recorded in this run. -/
def Runtime.Follows (h : TrafficHistory) (r : Runtime) : Prop :=
  r.lifecycle = .running → h.terminal = false →
    h.ShownBy r.config.transportSilenceTimeoutUs r.diagnostics

namespace Runtime

variable {h : TrafficHistory} {r r' : Runtime}

theorem follows_of_not_running (hlifecycle : r.lifecycle ≠ .running) : r.Follows h :=
  fun hrunning => absurd hrunning hlifecycle

/-- The other fields of the record do not matter. -/
theorem Follows.congr (hr : r.Follows h) (hlifecycle : r'.lifecycle = r.lifecycle)
    (hconfig : r'.lifecycle = .running → r'.config = r.config)
    (hframe : r'.diagnostics.hasLastFrame = r.diagnostics.hasLastFrame ∧
      r'.diagnostics.lastFrameUs = r.diagnostics.lastFrameUs)
    (htransport : r'.diagnostics.transport = r.diagnostics.transport) : r'.Follows h := by
  intro hrunning hopen
  obtain ⟨hsome, htime, hhealth⟩ := hr (hlifecycle ▸ hrunning) hopen
  rw [hconfig hrunning]
  refine ⟨hframe.1.trans hsome, ?_, htransport.trans hhealth⟩
  intro time hlast
  exact hframe.2.trans (htime time hlast)

/-- An evaluation of the silence, whoever makes it. -/
theorem follows_evaluated (hr : r.Follows h) (now : UInt64) :
    (r.updateSilenceDiagnostic now).Follows (h.next (.evaluated now)) := by
  obtain ⟨transport, heq⟩ := updateSilenceDiagnostic_eq r now
  intro hrunning hopen
  rw [heq] at hrunning
  have hshown := hr hrunning hopen
  have hlifecycle : r.lifecycle = .running := hrunning
  cases hframe : h.lastFrame with
  | none =>
    have hidle : r.updateSilenceDiagnostic now = r := by
      simp [updateSilenceDiagnostic, silenceDue, hshown.hasLastFrame, hframe]
    rw [hidle]
    refine ⟨hshown.hasLastFrame, hshown.lastFrame, ?_⟩
    rw [hshown.transport, TrafficHistory.transport_of_none hframe]
    exact (TrafficHistory.transport_of_none (h := h.next (.evaluated now)) hframe _).symm
  | some time =>
    have hdue : r.silenceDue now = elapsed now time r.config.transportSilenceTimeoutUs := by
      simp [silenceDue, hshown.hasLastFrame, hframe, hshown.lastFrame time hframe]
    have hsilent := h.silent_evaluated r.config.transportSilenceTimeoutUs time now
    have hnext := TrafficHistory.transport_of_some (h := h.next (.evaluated now)) hframe
      r.config.transportSilenceTimeoutUs
    unfold updateSilenceDiagnostic
    by_cases helapsed : elapsed now time r.config.transportSilenceTimeoutUs = true
    · rw [if_pos (by simp [hlifecycle, hdue, helapsed])]
      refine ⟨hshown.hasLastFrame, hshown.lastFrame, ?_⟩
      rw [hnext, if_pos (hsilent.mpr (.inr helapsed))]
    · rw [if_neg (by simp [hdue, helapsed])]
      refine ⟨hshown.hasLastFrame, hshown.lastFrame, ?_⟩
      have hsame := hsilent.trans (or_iff_left helapsed)
      rw [hnext, hshown.transport, TrafficHistory.transport_of_some hframe]
      simp only [hsame]

/-- The critical section of `snapshot_and_update`. -/
theorem follows_recordOutcome (hr : r.Follows h) (outcome : Outcome) (time : UInt64) :
    (r.recordOutcome outcome time).Follows (h.after (outcome.traffic time)) := by
  cases outcome with
  | frame frame result =>
    cases result with
    | fault => exact fun _ hopen => by simp [Outcome.traffic, TrafficHistory.next] at hopen
    | ignored | processed | malformed =>
      intro hrunning hopen
      refine ⟨rfl, ?_, ?_⟩
      · rintro _ ⟨⟩
        rfl
      · simp [Outcome.traffic, TrafficHistory.next, TrafficHistory.transport, recordOutcome,
          TransportDiagnostics.count, TrafficHistory.Silent]
  | fault | notStarted =>
    exact fun _ hopen => by simp [Outcome.traffic, TrafficHistory.next] at hopen
  | timeout =>
    simp only [recordOutcome]
    split_ifs with hframe
    · intro hrunning hopen
      have hshown := hr hrunning hopen
      have hnone : h.lastFrame = none := by simpa [hshown.hasLastFrame] using hframe
      refine ⟨hshown.hasLastFrame, hshown.lastFrame, ?_⟩
      exact (TrafficHistory.transport_of_none (h := h.next (.evaluated time)) hnone _).symm
    · apply follows_evaluated
      exact hr.congr rfl (fun _ => rfl) ⟨rfl, rfl⟩ rfl

theorem follows_workerStep {input : WorkerInput} {pc pc' : WorkerPc} {es : List Event}
    (hr : r.Follows h) (hstep : workerStep r input pc = some (r', pc', es)) :
    r'.Follows (h.after (pc.traffic input)) := by
  cases pc with
  | record budget outcome time =>
    cases hstep
    exact follows_recordOutcome hr outcome time
  | checkpoint budget action =>
    cases hstep
    exact follows_evaluated hr input.now
  | storeFaulted =>
    cases hstep
    exact follows_of_not_running (by simp)
  | recordPause =>
    cases hstep
    exact hr.congr rfl (fun _ => rfl) ⟨rfl, rfl⟩ rfl
  | refresh budget outcome time pc =>
    simp only [workerStep, Option.map_eq_some_iff, Prod.exists] at hstep
    obtain ⟨r'', pc'', hrefresh, heq⟩ := hstep
    obtain ⟨_, _, _, _, rfl⟩ := refreshStep_eq hrefresh
    cases heq
    exact hr.congr rfl (fun _ => rfl) ⟨rfl, rfl⟩ rfl
  | received budget received time =>
    simp only [workerStep] at hstep
    split_ifs at hstep
    · cases hstep
      exact hr
    · cases received <;> cases hstep <;> exact hr
  | afterReceive budget outcome =>
    simp only [workerStep] at hstep
    split at hstep <;> cases hstep <;> exact hr
  | finished => cases hstep
  | _ =>
    cases hstep
    exact hr.congr rfl (fun _ => rfl) ⟨rfl, rfl⟩ rfl

end Runtime

/-! ## Operations -/

/-- The record of a run that is about to begin is fresh, and the diagnostic of an
operation is written when the runtime is not running any more. -/
def OperationPc.Quiet (r : Runtime) : OperationPc → Prop
  | storeRunning => r.diagnostics.hasLastFrame = false ∧ r.diagnostics.transport = .awaitingTraffic
  | beginDiagnostic _ _ _ | refreshDiagnostic _ _ _ _ | writeDiagnostic _ _ _ =>
    r.lifecycle ≠ .running
  | _ => True

theorem OperationPc.AfterCleanup.quiet {r : Runtime} {pc : OperationPc} (h : pc.AfterCleanup) :
    pc.Quiet r := by
  cases h <;> trivial

theorem quiet_next {r : Runtime} (next : AfterDiagnostic) : next.pc.Quiet r := by
  cases next <;> trivial

/-- A step of an operation begins the run, leaves a state that is not running, or
touches nothing that the transport health depends on. -/
inductive OperationPc.Touches (r r' : Runtime) : OperationPc → Prop
  | begins (running : r' = { r with lifecycle := .running }) : Touches r r' .storeRunning
  | stops {pc : OperationPc} (began : pc.traffic = []) (lifecycle : r'.lifecycle ≠ .running) :
    Touches r r' pc
  | spares {pc : OperationPc} (began : pc.traffic = []) (lifecycle : r'.lifecycle = r.lifecycle)
    (config : r'.config = r.config) (diagnostics : r'.diagnostics = r.diagnostics) : Touches r r' pc

theorem operationStep_quiet {platform : Platform} {r r' : Runtime} {input : OperationInput}
    {pc pc' : OperationPc} {es : List Event} (howned : pc.Owned platform r) (hpc : pc.Quiet r)
    (hstep : operationStep platform r input pc = some (r', pc', es)) :
    pc.Touches r r' ∧ pc'.Quiet r' := by
  cases pc with
  | idle | destroyed => cases hstep
  | storeRunning =>
    cases hstep
    exact ⟨.begins rfl, trivial⟩
  | resetDiagnostics =>
    cases hstep
    refine ⟨.stops rfl ?_, rfl, rfl⟩
    simp [howned.2.2.1]
  | storeStopping next =>
    cases hstep
    exact ⟨.stops rfl (by simp), by simp [OperationPc.Quiet]⟩
  | storeFinal e =>
    cases hstep
    have hlifecycle : e.lifecycle ≠ .running := by
      unfold Ending.lifecycle
      split_ifs <;> simp
    exact ⟨.stops rfl hlifecycle, hlifecycle⟩
  | writeDiagnostic lifecycle transport next =>
    cases hstep
    exact ⟨.stops rfl hpc, quiet_next next⟩
  | refresh pc =>
    simp only [operationStep, Option.map_eq_some_iff, Prod.exists] at hstep
    obtain ⟨r'', pc'', hrefresh, heq⟩ := hstep
    obtain ⟨_, _, _, _, rfl⟩ := Runtime.refreshStep_eq hrefresh
    cases heq
    exact ⟨.spares rfl rfl rfl rfl, by cases pc'' <;> trivial⟩
  | refreshDiagnostic lifecycle transport next pc =>
    simp only [operationStep, Option.map_eq_some_iff, Prod.exists] at hstep
    obtain ⟨r'', pc'', hrefresh, heq⟩ := hstep
    obtain ⟨_, _, _, _, rfl⟩ := Runtime.refreshStep_eq hrefresh
    cases heq
    exact ⟨.spares rfl rfl rfl rfl, by cases pc'' <;> exact hpc⟩
  | awaitStart =>
    simp only [operationStep] at hstep
    split_ifs at hstep <;> cases hstep
    · exact ⟨.spares rfl rfl rfl rfl, trivial⟩
    · exact ⟨.spares rfl rfl rfl rfl, trivial⟩
    all_goals exact ⟨.spares rfl rfl rfl rfl, by simp [OperationPc.Quiet, howned.2]⟩
  | createWorker =>
    simp only [operationStep] at hstep
    split_ifs at hstep <;> cases hstep <;> exact ⟨.spares rfl rfl rfl rfl, trivial⟩
  | awaitWorker | joinWorker =>
    simp only [operationStep] at hstep
    split_ifs at hstep <;> cases hstep
    all_goals cases platform <;> exact ⟨.spares rfl rfl rfl rfl, trivial⟩
  | attemptStop =>
    simp only [operationStep] at hstep
    split at hstep <;> cases hstep
    · exact ⟨.spares rfl rfl rfl rfl, (afterSourceStop_afterCleanup _ _).quiet⟩
    · exact ⟨.spares rfl rfl rfl rfl, trivial⟩
  | cleanUp =>
    simp only [operationStep] at hstep
    split at hstep <;> cases hstep
    · exact ⟨.spares rfl rfl rfl rfl, (afterPartialCleanup_afterCleanup _ _).quiet⟩
    · exact ⟨.spares rfl rfl rfl rfl, trivial⟩
  | awaitStop =>
    cases hstep
    exact ⟨.spares rfl rfl rfl rfl, (afterSourceStop_afterCleanup _ _).quiet⟩
  | awaitCleanup =>
    cases hstep
    exact ⟨.spares rfl rfl rfl rfl, (afterPartialCleanup_afterCleanup _ _).quiet⟩
  | requestStop caller =>
    cases hstep
    refine ⟨.spares rfl rfl rfl rfl, ?_⟩
    cases caller with
    | start | stop => trivial
    | destroy final => exact destroyBy_of (P := OperationPc.Quiet _) trivial trivial trivial
  | retryCleanup =>
    cases hstep
    refine ⟨.spares rfl rfl rfl rfl, ?_⟩
    split_ifs
    · exact destroyBy_of (P := OperationPc.Quiet _) trivial trivial trivial
    · trivial
  | beginDiagnostic =>
    cases hstep
    exact ⟨.spares rfl rfl rfl rfl, hpc⟩
  | _ =>
    cases hstep
    exact ⟨.spares rfl rfl rfl rfl, trivial⟩

theorem Runtime.Follows.operationStep {h : TrafficHistory} {r r' : Runtime} {pc : OperationPc}
    (hr : r.Follows h) (hpc : pc.Quiet r) (htouches : pc.Touches r r') :
    r'.Follows (h.after pc.traffic) := by
  cases htouches with
  | begins running =>
    subst running
    intro _ _
    exact ⟨hpc.1, by simp [OperationPc.traffic, TrafficHistory.next], hpc.2⟩
  | stops began lifecycle => exact Runtime.follows_of_not_running lifecycle
  | spares began lifecycle config diagnostics =>
    rw [began]
    exact hr.congr lifecycle (fun _ => config) ⟨by rw [diagnostics], by rw [diagnostics]⟩
      (by rw [diagnostics])

/-! ## All threads together -/

structure Runtime.InTraffic (platform : Platform) (h : TrafficHistory) (r : Runtime) : Prop where
  sound : r.Sound platform
  quiet : r.operation.Quiet r
  follows : r.Follows h

/-- Another thread does not disturb a quiet operation: no worker is there before
the run begins, and the lifecycle never becomes running again. -/
theorem OperationPc.Quiet.background {r r' : Runtime} {pc : OperationPc}
    (h : pc.Quiet r) (hlifecycle : r'.lifecycle = r.lifecycle ∨ r'.lifecycle = .faulted)
    (hrecord : pc = .storeRunning → r'.diagnostics = r.diagnostics) : pc.Quiet r' := by
  cases pc with
  | storeRunning =>
    rw [Quiet, hrecord rfl]
    exact h
  | beginDiagnostic | refreshDiagnostic | writeDiagnostic =>
    rcases hlifecycle with hsame | hfaulted
    · exact fun hrunning => h (hsame ▸ hrunning)
    · simp [Quiet, hfaulted]
  | _ => trivial

theorem step_inTraffic {platform : Platform} {r t : Runtime} {a : Action} {es : List Event}
    {h : TrafficHistory} (hr : r.InTraffic platform h) (hstep : step platform r a = some (t, es)) :
    t.InTraffic platform (h.after (r.traffic a)) := by
  have hsound := step_sound hr.sound hstep
  obtain ⟨howned, hquiet, hfollows⟩ := hr
  cases a with
  | configure config =>
    cases step_cases hstep with
    | configure usable kept =>
      refine ⟨hsound, hquiet.background (.inl rfl) fun _ => rfl, ?_⟩
      refine hfollows.congr rfl ?_ ⟨rfl, rfl⟩ rfl
      intro hrunning
      apply kept
      change r.lifecycle = .running at hrunning
      simp [hrunning]
    | refused => exact ⟨hsound, hquiet, hfollows⟩
  | start =>
    cases step_cases hstep with
    | start => exact ⟨hsound, trivial, hfollows.congr rfl (fun _ => rfl) ⟨rfl, rfl⟩ rfl⟩
    | refused => exact ⟨hsound, hquiet, hfollows⟩
  | stop byWorker =>
    cases step_cases hstep with
    | refused => exact ⟨hsound, hquiet, hfollows⟩
    | stop free owned usable begins =>
      refine ⟨hsound, ?_, hfollows.congr rfl (fun _ => rfl) ⟨rfl, rfl⟩ rfl⟩
      rcases begins with ⟨-, rfl⟩ | ⟨-, ⟨hstopping, rfl⟩ | ⟨-, rfl⟩⟩
      · trivial
      · simp [OperationPc.Quiet, hstopping]
      · trivial
  | destroy =>
    cases step_cases hstep with
    | destroy => exact ⟨hsound, trivial, hfollows.congr rfl (fun _ => rfl) ⟨rfl, rfl⟩ rfl⟩
    | refused => exact ⟨hsound, hquiet, hfollows⟩
  | operation input =>
    obtain ⟨r', pc, hop, rfl⟩ := step_operation hstep
    obtain ⟨htouches, hquiet'⟩ := operationStep_quiet howned.owned hquiet hop
    refine ⟨hsound, hquiet'.background (.inl rfl) fun _ => rfl, ?_⟩
    exact (hfollows.operationStep hquiet htouches).congr rfl (fun _ => rfl) ⟨rfl, rfl⟩ rfl
  | worker input =>
    obtain ⟨pc, r', pc', active, hworker, rfl⟩ := step_worker hstep
    have heffect := workerStep_effect hworker
    refine ⟨hsound, ?_, ?_⟩
    · simp only [heffect.operation]
      apply hquiet.background heffect.lifecycle
      intro hbegins
      have hgone := howned.owned
      rw [hbegins] at hgone
      exact absurd hgone.2.1 (Runtime.Gone.not_running active heffect.running)
    · have hfollows' := Runtime.follows_workerStep hfollows hworker
      simp only [Runtime.traffic, active]
      exact hfollows'.congr rfl (fun _ => rfl) ⟨rfl, rfl⟩ rfl
  | diagnostics now =>
    obtain ⟨-, rfl, rfl⟩ := step_diagnostics hstep
    refine ⟨hsound, ?_, Runtime.follows_evaluated hfollows now⟩
    have hbegins : r.operation = .storeRunning → r.updateSilenceDiagnostic now = r := by
      intro hbegins
      have hstopped := howned.owned
      rw [hbegins] at hstopped
      simp [Runtime.updateSilenceDiagnostic, hstopped.2.2.1]
    obtain ⟨transport, heq⟩ := Runtime.updateSilenceDiagnostic_eq r now
    rw [heq] at hbegins ⊢
    exact hquiet.background (.inl rfl) fun hpc => congrArg Runtime.diagnostics (hbegins hpc)

/-- What a schedule has done to the transport health of the current run. -/
def trafficHistory (platform : Platform) (as : List Action) : TrafficHistory :=
  ({} : TrafficHistory).after ((machine platform).history Runtime.traffic {} as)

theorem run_inTraffic {platform : Platform} {as : List Action} {r : Runtime} {es : List Event}
    (hrun : (machine platform).run {} as = some (r, es)) :
    r.InTraffic platform (trafficHistory platform as) := by
  refine (machine platform).run_history
    (I := fun l r => r.InTraffic platform (({} : TrafficHistory).after l)) (h := []) ?_ ?_ hrun
  · intro l r a t es hr hstep
    rw [TrafficHistory.after_append]
    exact step_inTraffic hr hstep
  · exact ⟨sound_init platform, trivial, Runtime.follows_of_not_running (by simp)⟩

theorem TrafficHistory.silent_iff (h : TrafficHistory) (timeoutUs time : UInt64) :
    h.Silent timeoutUs time ↔ ∃ now ∈ h.samples, time ≤ now ∧ timeoutUs ≤ now - time := by
  simp only [Silent, elapsed_iff]

/-- While the runtime is running and no terminal outcome was recorded: it awaits
traffic until the first frame; then it is timed out if and only if some
evaluation since the last frame found it too old. With the samples in order, a
reader learns whether the frame is too old at its own sample. -/
theorem transport_silence {platform : Platform} {as : List Action} {r : Runtime}
    {es : List Event} (hrun : (machine platform).run {} as = some (r, es))
    (hrunning : r.lifecycle = .running) (hopen : (trafficHistory platform as).terminal = false) :
    (r.diagnostics.transport = .awaitingTraffic ↔ (trafficHistory platform as).lastFrame = none) ∧
    ∀ time, (trafficHistory platform as).lastFrame = some time →
      (r.diagnostics.transport = .timedOut ↔ ∃ now ∈ (trafficHistory platform as).samples,
        time ≤ now ∧ r.config.transportSilenceTimeoutUs ≤ now - time) ∧
      (r.diagnostics.transport = .live ↔ ¬ ∃ now ∈ (trafficHistory platform as).samples,
        time ≤ now ∧ r.config.transportSilenceTimeoutUs ≤ now - time) ∧
      ∀ now t d, (∀ earlier ∈ time :: (trafficHistory platform as).samples, earlier ≤ now) →
        step platform r (.diagnostics now) = some (t, [.read d]) →
          (d.transport = .timedOut ↔ r.config.transportSilenceTimeoutUs ≤ now - time) := by
  have hfollows := (run_inTraffic hrun).follows
  generalize trafficHistory platform as = h at hfollows hopen
  have htransport := (hfollows hrunning hopen).transport
  constructor
  · rw [htransport]
    constructor
    · intro hawaits
      by_contra hframe
      obtain ⟨time, hframe⟩ := Option.ne_none_iff_exists'.mp hframe
      rw [TrafficHistory.transport_of_some hframe] at hawaits
      split_ifs at hawaits
    · exact fun hnone => TrafficHistory.transport_of_none hnone _
  intro time hframe
  rw [TrafficHistory.transport_of_some hframe] at htransport
  rw [← h.silent_iff, htransport]
  refine ⟨by simp, by simp, ?_⟩
  intro now t d hordered hstep
  simp only [step] at hstep
  split_ifs at hstep
  cases hstep
  obtain ⟨transport, heq⟩ := Runtime.updateSilenceDiagnostic_eq r now
  have hrunning' : (r.updateSilenceDiagnostic now).lifecycle = .running := by
    rw [heq]
    exact hrunning
  have hconfig : (r.updateSilenceDiagnostic now).config = r.config := by rw [heq]
  have hread := (Runtime.follows_evaluated hfollows now hrunning' hopen).transport
  have hstart : time ≤ now := hordered time (by simp)
  rw [TrafficHistory.transport_of_some (h := h.next (.evaluated now)) hframe, hconfig] at hread
  have hsilent : (h.next (.evaluated now)).Silent r.config.transportSilenceTimeoutUs time ↔
      r.config.transportSilenceTimeoutUs ≤ now - time := by
    rw [TrafficHistory.silent_evaluated]
    constructor
    · rintro (⟨earlier, hmem, helapsed⟩ | helapsed)
      · have hle := hordered earlier (List.mem_cons_of_mem time hmem)
        exact (elapsed_iff.mp (elapsed_mono helapsed hle)).2
      · exact (elapsed_iff.mp helapsed).2
    · exact fun hlimit => .inr (elapsed_iff.mpr ⟨hstart, hlimit⟩)
  rw [hread, ← hsilent]
  split_ifs with h <;> simp [h]

/-- A frame at 100, and a reader whose clock has gone backwards. -/
def backwardsSchedule : List Action :=
  let operation : Action := .operation {}
  let worker : Action := .worker {}
  [.start] ++ List.replicate 15 operation ++ List.replicate 2 worker ++
    [.worker { received := .frame {}, now := 100 }] ++ List.replicate 9 worker ++
    [.diagnostics 50]

/-- The transport stays live, until a reader comes exactly at the end of the timeout. -/
theorem transport_silence_inclusive : ∃ r es,
    (machine .host).run {} backwardsSchedule = some (r, es) ∧ r.diagnostics.transport = .live ∧
      ∃ t d, step .host r (.diagnostics 1000100) = some (t, [.read d]) ∧
        d.transport = .timedOut := by
  have hobserved : ((machine .host).run {} backwardsSchedule).map (fun p =>
      (p.1.lifecycle, p.1.operation.destroying, p.1.config.transportSilenceTimeoutUs)) =
      some (.running, false, 1000000) := by decide +kernel
  have hhistory : trafficHistory .host backwardsSchedule =
      { lastFrame := some 100, samples := [50] } := by decide +kernel
  obtain ⟨⟨r, es⟩, hrun, heq⟩ := Option.map_eq_some_iff.mp hobserved
  simp only [Prod.mk.injEq] at heq
  obtain ⟨hrunning, husable, htimeout⟩ := heq
  obtain ⟨-, hframe⟩ := transport_silence hrun hrunning (by rw [hhistory])
  obtain ⟨-, hlive, hread⟩ := hframe 100 (by rw [hhistory])
  rw [hhistory, htimeout] at hlive hread
  have hstep : step .host r (.diagnostics 1000100) = some (r.updateSilenceDiagnostic 1000100,
      [.read (r.updateSilenceDiagnostic 1000100).diagnostics]) := by
    simp [step, husable]
  have hsilent := (hread 1000100 _ _ (by simp) hstep).mpr (by decide)
  exact ⟨r, es, hrun, hlive.mpr (by simp), _, _, hstep, hsilent⟩

end Telemetry
end VehicleCanCore

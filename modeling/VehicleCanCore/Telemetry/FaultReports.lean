import VehicleCanCore.Telemetry.FaultLatch
import VehicleCanCore.Telemetry.Tidings

/-!
# What the workers report of a fault

A receive task latches a fault, `receive` tells its caller, and the worker records
it. On the way a result of before the latch may still come through, and a stop may
come in between. `faultReports` says which records are possible in which order.
-/

namespace VehicleCanCore
namespace Telemetry

open Automata

/-- After a terminal outcome a worker goes on to its end. -/
def WorkerPc.closing : WorkerPc → Bool
  | onFrameProcessed _ _ result _ => result = .fault
  | onDiagnostics _ outcome _ | storeFaulted _ outcome | requestStop _ outcome => outcome.terminal
  | _ => false

namespace Pipeline

/-! ## Reports -/

/-- What somebody sees of a run who follows its faults. -/
inductive Report
  | opened
  | latched
  | recorded (outcome : Outcome)
  deriving DecidableEq

/-- How a session stands; at a fault a result of before it may be `underway`. -/
inductive Standing
  | receiving
  | faulted (underway : Bool)
  | ended
  deriving DecidableEq, Repr

def Standing.next : Standing → Report → Option Standing
  | _, .opened => some .receiving
  | .receiving, .latched => some (.faulted true)
  | k, .latched => some k
  | .receiving, .recorded outcome =>
    if outcome.tiding = .ordinary then some (if outcome.terminal then .ended else .receiving)
    else none
  | .faulted underway, .recorded outcome =>
    if outcome.tiding = .fault ∨ (outcome.tiding = .ordinary ∧ underway = true) then
      some (if outcome.terminal then .ended else .faulted false)
    else none
  | .ended, .recorded _ => none

/-- A fault is recorded behind a latched one, with at most one other outcome in
between; nothing is recorded behind a terminal outcome; `NotStarted` never is. -/
def faultReports : Acceptor Standing Report := ⟨Standing.next⟩

def recorded? : Telemetry.Event → Option Report
  | .recorded outcome => some (.recorded outcome)
  | _ => none

def Event.report? : Event → Option Report
  | .system (.runtime _ e) => recorded? e
  | _ => none

/-- What no event of the step shows. -/
def landmarks (s : State) : Action → List Report
  | .bus a =>
    if s.bus.accepts a then [.opened] else if s.bus.latches a then [.latched] else []
  | _ => []

def reports (platform : Platform) (s : State) (a : Action) : List Report :=
  landmarks s a ++ (step platform s a).elim [] fun p => p.2.filterMap Event.report?

theorem reports_system {platform : Platform} {s t : Runtimes.State} {i : ℕ}
    {a : Telemetry.Action} {es : List Runtimes.Event}
    (h : Runtimes.step platform s (.runtime i a) = some (t, es)) :
    ∃ r fs, Telemetry.step platform (s.runtimes i) a = some (r, fs) ∧
      (es.map Event.system).filterMap Event.report? = fs.filterMap recorded? := by
  obtain ⟨r, fs, gs, hstep, rfl⟩ := Runtimes.step_runtime_events h
  refine ⟨r, fs, hstep, ?_⟩
  rw [List.map_append, List.filterMap_append, List.map_map, List.map_map, List.filterMap_map,
    List.filterMap_map]
  have hsource : gs.filterMap (Event.report? ∘ Event.system ∘ Runtimes.Event.source) = [] := by
    rw [List.filterMap_eq_nil_iff]
    exact fun _ _ => rfl
  rw [hsource, List.nil_append]
  rfl

theorem filterMap_recorded {es : List Telemetry.Event}
    (h : ∀ e ∈ es, ∀ outcome, e ≠ .recorded outcome) : es.filterMap recorded? = [] := by
  rw [List.filterMap_eq_nil_iff]
  intro e he
  cases e with
  | recorded outcome => exact absurd rfl (h _ he outcome)
  | _ => rfl

inductive Reported (s t : State) (a : Action) : List Report → Prop
  | quiet (calm : landmarks s a = []) : Reported s t a []
  | opened (opens : landmarks s a = [.opened]) : Reported s t a [.opened]
  | latched (latches : landmarks s a = [.latched]) : Reported s t a [.latched]
  | recorded {i : ℕ} {budget : WorkBudget} {outcome : Outcome} {time : UInt64} {pc : WorkerPc}
    (calm : landmarks s a = []) (worker : s.worker i = some (.record budget outcome time))
    (left : t.worker i = some pc) (closing : pc.closing = outcome.terminal)
    (uncommitted : pc.committed = none)
    (undecided : ∀ budget received time, pc ≠ .received budget received time)
    (call : t.call = none) (others : ∀ j, j ≠ i → t.runtime j = s.runtime j) :
    Reported s t a [.recorded outcome]

section

variable {platform : Platform} {sole : ℕ} {s t : State} {i : ℕ}

theorem landmarks_cases (s : State) (a : CanBus.Action) : landmarks s (.bus a) = [] ∨
    landmarks s (.bus a) = [.opened] ∨ landmarks s (.bus a) = [.latched] := by
  simp only [landmarks]
  split_ifs <;> simp

theorem reports_of_step {a : Action} {es : List Event} (h : step platform s a = some (t, es)) :
    reports platform s a = landmarks s a ++ es.filterMap Event.report? := by
  rw [reports, h]
  rfl

theorem reported_of_worker {a : Action} {r' : Runtime} {input : WorkerInput} {pc pc' : WorkerPc}
    {es : List Telemetry.Event} (hcalm : landmarks s a = []) (hworker : s.worker i = some pc)
    (hwork : workerStep (s.runtime i) input pc = some (r', pc', es)) (hcall : t.call = none)
    (hself : t.runtime i = { r' with worker := some pc' })
    (hothers : ∀ j, j ≠ i → t.runtime j = s.runtime j) :
    Reported s t a (es.filterMap recorded?) := by
  have hleft : t.worker i = some pc' := by rw [State.worker, hself]
  by_cases hrecorded : ∃ outcome, .recorded outcome ∈ es
  · obtain ⟨outcome, hmem⟩ := hrecorded
    obtain ⟨budget, time, rfl⟩ := workerStep_recorded hwork hmem
    simp only [workerStep, Option.some.injEq, Prod.mk.injEq] at hwork
    obtain ⟨-, rfl, rfl⟩ := hwork
    refine .recorded hcalm hworker hleft ?_ ?_ ?_ hcall hothers
    · cases outcome with
      | frame frame result => cases result <;> rfl
      | _ => rfl
    · cases outcome <;> rfl
    · cases outcome <;> simp
  · rw [filterMap_recorded fun e he outcome heq => hrecorded ⟨outcome, heq ▸ he⟩]
    exact .quiet hcalm

theorem step_reported {a : Action} {es : List Event} (hs : s.Piped platform sole)
    (h : step platform s a = some (t, es)) : Reported s t a (reports platform s a) := by
  rw [reports_of_step h]
  cases step_cases h with
  | @taken i input budget received system fs receives answered hstep =>
    obtain ⟨r, gs, hruntime, hview⟩ := reports_system hstep
    obtain ⟨pc, r', pc', hpc, hwork, -⟩ := step_worker hruntime
    have hworker : s.worker i = some pc := hpc
    rw [receives] at hworker
    cases hworker
    cases hwork
    rw [hview]
    exact .quiet rfl
  | @runtime i a system fs elsewhere hstep =>
    obtain ⟨r, gs, hruntime, hview⟩ := reports_system hstep
    rw [hview]
    by_cases ha : ∃ input, a = .worker input
    · obtain ⟨input, rfl⟩ := ha
      obtain ⟨pc, r', pc', hpc, hwork, rfl⟩ := step_worker hruntime
      have hworker : s.worker i = some pc := hpc
      have hreceives := elsewhere input rfl
      rw [hworker] at hreceives
      have hcall := hs.call_eq_none hworker (workerStep_effect hwork).running hreceives
      obtain ⟨r₁, fs₁, hruntime₁, hruntimes⟩ := Runtimes.step_runtime_runtimes hstep
      rw [hruntime] at hruntime₁
      cases hruntime₁
      refine reported_of_worker rfl hworker hwork hcall ?_ fun j hj => ?_
      · rw [State.runtime, hruntimes, if_pos rfl]
      · rw [State.runtime, hruntimes, if_neg hj]
        rfl
    · have hother (input : WorkerInput) : a ≠ .worker input := fun heq => ha ⟨input, heq⟩
      rw [filterMap_recorded fun e he outcome heq => ?_]
      · cases a with
        | worker input => exact absurd rfl (hother input)
        | _ => exact .quiet rfl
      · have hshared := step_shared hother hruntime e he (by rw [heq]; rfl)
        rw [heq] at hshared
        cases hshared
  | receive => exact .quiet rfl
  | @bus a b fs system gs background hbus hstep =>
    have hnone : (fs.map Event.bus ++ gs.map Event.system).filterMap Event.report? = [] := by
      cases Runtimes.step_cases hstep with
      | @bus _ _ es hsources =>
        rw [List.filterMap_eq_nil_iff]
        intro e he
        simp only [List.map_map, List.mem_append, List.mem_map, Function.comp_apply] at he
        rcases he with ⟨_, -, rfl⟩ | ⟨_, -, rfl⟩ <;> rfl
    rw [hnone, List.append_nil]
    rcases landmarks_cases s a with hcalm | hopens | hlatches
    · rw [hcalm]
      exact .quiet hcalm
    · rw [hopens]
      exact .opened hopens
    · rw [hlatches]
      exact .latched hlatches

/-! ## The state under a standing -/

theorem step_bus {a : Action} {es : List Event} (hs : s.Piped platform sole)
    (h : step platform s a = some (t, es)) : (t.bus = s.bus ∧ landmarks s a = []) ∨
      ∃ b fs, CanBus.step s.bus b = some (t.bus, fs) ∧ landmarks s a = landmarks s (.bus b) := by
  have hruntime {i : ℕ} {a : Telemetry.Action} {gs : List Runtimes.Event}
      (hstep : Runtimes.step platform s.system (.runtime i a) = some (t.system, gs)) :
      t.bus = s.bus ∨
        ∃ b fs, CanBus.step s.bus b = some (t.bus, fs) ∧ [] = landmarks s (.bus b) := by
    rcases Runtimes.step_runtime_bus hs.staffed.agreed hstep with hsame | ⟨b, fs, hbegins, hbus⟩
    · exact .inl hsame
    · refine .inr ⟨b, fs, hbus, ?_⟩
      cases b with
      | start | stop => rfl
      | _ => cases hbegins
  cases step_cases h with
  | taken _ _ hstep | runtime _ hstep =>
    rcases hruntime hstep with hsame | hbus
    · exact .inl ⟨hsame, rfl⟩
    · exact .inr hbus
  | receive _ _ hstep =>
    obtain ⟨-, -, fs, hbus⟩ := Runtimes.step_bus_bus hstep
    exact .inr ⟨_, fs, hbus, rfl⟩
  | bus _ hbus hstep =>
    obtain ⟨rfl, -⟩ := bus_of_system hbus hstep
    exact .inr ⟨_, _, hbus, rfl⟩

theorem accepts_of_landmarks {b : CanBus.Action} (h : landmarks s (.bus b) = [.opened]) :
    s.bus.accepts b = true := by
  simp only [landmarks] at h
  split_ifs at h with haccepts
  · exact haccepts
  · cases h

theorem landmarks_of_latches {b : CanBus.Action} (h : s.bus.latches b = true) :
    landmarks s (.bus b) = [.latched] := by
  cases b with
  | task i input =>
    simp only [landmarks, CanBus.State.accepts, h]
    rfl
  | _ => cases h

theorem step_running {a : Action} {es : List Event} (hs : s.Piped platform sole)
    (hreconciles : s.bus.control.Reconciles) (h : step platform s a = some (t, es)) :
    t.bus.control.Reconciles ∧ (t.bus.shared.lifecycle.state = .running →
      s.bus.shared.lifecycle.state = .running ∨ landmarks s a = [.opened]) := by
  rcases step_bus hs h with ⟨hsame, -⟩ | ⟨b, fs, hbus, hlandmarks⟩
  · rw [hsame]
    exact ⟨hreconciles, .inl⟩
  · obtain ⟨hafter, hrunning⟩ := CanBus.step_running hreconciles hbus
    refine ⟨hafter, fun hstate => (hrunning hstate).imp_right fun haccepts => ?_⟩
    rw [hlandmarks]
    exact if_pos haccepts

theorem step_opens {a : Action} {es : List Event} (hs : s.Piped platform sole)
    (h : step platform s a = some (t, es)) (hopens : landmarks s a = [.opened]) :
    (∀ i, ¬ (s.runtime i).Working) ∧ t.bus.shared.lifecycle.state = .running := by
  rcases step_bus hs h with ⟨-, hcalm⟩ | ⟨b, fs, hbus, hlandmarks⟩
  · rw [hcalm] at hopens
    cases hopens
  · have haccepts := accepts_of_landmarks (hlandmarks ▸ hopens)
    exact ⟨vacant_of_accepts hs haccepts, CanBus.step_opens haccepts hbus⟩

theorem step_latches {a : Action} {es : List Event} (hs : s.Piped platform sole)
    (h : step platform s a = some (t, es)) (hlatches : landmarks s a = [.latched]) :
    t.bus.shared.lifecycle.state = .faulted := by
  rcases step_bus hs h with ⟨-, hcalm⟩ | ⟨b, fs, hbus, hlandmarks⟩
  · rw [hcalm] at hlatches
    cases hlatches
  · have hlatches : s.bus.latches b = true := by
      rw [hlandmarks] at hlatches
      simp only [landmarks] at hlatches
      split_ifs at hlatches with _ hlatched
      · cases hlatches
      · exact hlatched
    cases b with
    | task i input =>
      simp only [CanBus.State.latches, hbus, Option.any_some, Bool.and_eq_true,
        decide_eq_true_eq] at hlatches
      exact hlatches.2
    | _ => cases hlatches

theorem step_served {a : Action} {es : List Event} (hs : s.Piped platform sole)
    (h : step platform s a = some (t, es)) (ht : t.system.Served) :
    s.system.Served ∨ t.bus.control = .startSucceeded := by
  have hagreed := hs.staffed.agreed
  cases step_cases h with
  | taken _ _ hstep | runtime _ hstep => exact .inl (Runtimes.served_of_runtime hagreed hstep ht)
  | receive _ _ hstep | bus _ _ hstep => exact Runtimes.served_of_bus hagreed hstep ht

/-- Under a serving worker the acquisition runs until a fault is latched. -/
theorem step_served_running {a : Action} {es : List Event} (hs : s.Piped platform sole)
    (ho : s.Opened) (hp : t.Piped platform sole) (hq : t.Opened)
    (hrunning : s.system.Served → s.bus.shared.lifecycle.state = .running)
    (h : step platform s a = some (t, es)) (ht : t.system.Served) :
    t.bus.shared.lifecycle.state = .running ∨ landmarks s a = [.latched] := by
  rcases step_bus hs h with ⟨hsame, -⟩ | ⟨b, fs, hbus, hlandmarks⟩
  · rw [hsame]
    rcases step_served hs h ht with hserved | hsucceeded
    · exact .inl (hrunning hserved)
    · rw [hsame] at hsucceeded
      exact .inl (hrunning (.inl (.inl hsucceeded)))
  · have hstop : b ≠ .stop := by
      rintro rfl
      obtain ⟨-, -, -, hstopping, -⟩ := CanBus.step_stopCall hs.bus_sound hbus
      exact ht.not_stopping hp.staffed.agreed hq.unasked hstopping
    have hkept (hserved : s.system.Served) :
        t.bus.shared.lifecycle.state = .running ∨ landmarks s a = [.latched] := by
      obtain ⟨n, hinterval⟩ := ho.interval hserved
      rcases CanBus.step_interval_state hinterval hstop hbus with hsame | ⟨hlatches, -⟩
      · exact .inl (hsame.trans (hrunning hserved))
      · exact .inr (hlandmarks.trans (landmarks_of_latches hlatches))
    rcases step_served hs h ht with hserved | hsucceeded
    · exact hkept hserved
    · by_cases hbefore : s.bus.control = .startSucceeded
      · exact hkept (.inl (.inl hbefore))
      · rcases CanBus.step_accepts hs.bus_sound hbus (by rw [hsucceeded]; rfl) with
          hstarting | haccepts
        · obtain ⟨n, h, haccount⟩ := ho.opening hstarting
          exact .inl (CanBus.step_succeeded haccount hbefore hbus hsucceeded).2
        · exact .inl (CanBus.step_opens haccepts hbus)

/-! ## After the last record -/

/-- Whoever still works is on its way to its end, or has been asked to stop. -/
def State.Closed (s : State) : Prop :=
  ∀ i pc, s.worker i = some pc → pc.isFinished = false →
    pc.closing = true ∨ (s.runtime i).stopRequested = true

theorem closing_step {r r' : Runtime} {input : WorkerInput} {pc pc' : WorkerPc}
    {es : List Telemetry.Event} (hpc : pc.closing = true ∨ r.stopRequested = true)
    (hrunning : pc'.isFinished = false) (h : workerStep r input pc = some (r', pc', es)) :
    pc'.closing = true ∨ r'.stopRequested = true := by
  rcases hpc with hpc | hstop
  · cases pc with
    | onFrameProcessed budget frame result time =>
      cases h
      obtain rfl := of_decide_eq_true hpc
      exact .inl rfl
    | onDiagnostics budget outcome time =>
      simp only [workerStep, WorkerPc.closing] at h hpc
      rw [if_pos hpc] at h
      cases h
      exact .inl hpc
    | storeFaulted =>
      cases h
      exact .inl hpc
    | requestStop =>
      cases h
      exact .inr rfl
    | _ => cases hpc
  · exact .inr ((workerStep_effect h).stopRequested hstop)

theorem step_closed {a : Action} {es : List Event} (hs : s.Piped platform sole)
    (hlaunching : ¬ s.system.Launching) (hclosed : s.Closed)
    (h : step platform s a = some (t, es)) : t.Closed := by
  refine step_workers (P := fun stop pc => pc.closing = true ∨ stop = true) ?_ ?_ hs
    (fun i hcreate => hlaunching (.inr ⟨i, .inr ?_⟩)) hclosed h
  · intro pc _
    exact .inr rfl
  · intro r r' input pc pc' gs hpc hrunning hwork
    exact closing_step hpc hrunning hwork
  · have hcreate : (s.system.runtimes i).operation = .createWorker := hcreate
    rw [hcreate]
    rfl

theorem step_launching {a : Action} {es : List Event} (hs : s.Piped platform sole)
    (h : step platform s a = some (t, es)) (ht : t.system.Launching) :
    s.system.Launching ∨ landmarks s a = [.opened] := by
  have hagreed := hs.staffed.agreed
  have hstarting : s.system.Launching ∨ t.bus.control.phase = .starting := by
    cases step_cases h with
    | taken _ _ hstep | runtime _ hstep =>
      cases Runtimes.step_cases hstep with
      | runtime permitted hruntime served =>
        exact .inl (Runtimes.early_of_step (fun _ => id) hagreed hruntime served ht)
    | receive _ _ hstep | bus _ _ hstep =>
      cases Runtimes.step_cases hstep with
      | bus hsources =>
        have hsucceeded : (fun pc : CanBus.ControlPc => pc.phase = .starting) .startSucceeded := rfl
        exact (Runtimes.early_of_bus hsucceeded hagreed hsources ht).symm
  rcases hstarting with hbefore | hstarting
  · exact .inl hbefore
  · rcases step_bus hs h with ⟨hsame, -⟩ | ⟨b, fs, hbus, hlandmarks⟩
    · rw [hsame] at hstarting
      exact .inl (.inl hstarting)
    · refine (CanBus.step_accepts hs.bus_sound hbus hstarting).imp .inl fun haccepts => ?_
      rw [hlandmarks]
      exact if_pos haccepts

/-! ## The account of the reports -/

/-- What the state is like when the reports stand like this. -/
def Standing.Agrees (s : State) : Standing → Prop
  | receiving => (s.system.Served → s.bus.shared.lifecycle.state = .running) ∧
      ∀ τ, s.Coming τ → τ = .ordinary
  | faulted underway => s.bus.shared.lifecycle.state ≠ .running ∧
      ∀ τ, s.Coming τ → τ = .fault ∨ (τ = .ordinary ∧ underway = true)
  | ended => ¬ s.system.Launching ∧ (∀ τ, ¬ s.Coming τ) ∧ s.Closed

theorem State.Coming.working {τ : Tiding} (h : s.Coming τ) :
    ∃ i, (s.runtime i).Working := by
  cases h with
  | @committed i pc worker commits =>
    refine ⟨i, pc, worker, ?_⟩
    cases pc <;> first | rfl | cases commits
  | received serving worker told => exact ⟨_, serving.1⟩
  | answered serving call told => exact ⟨_, serving.1⟩
  | popping serving call consumer told => exact ⟨_, serving.1⟩

theorem State.Closed.not_tells {τ : Tiding} (h : s.Closed) : ¬ s.Tells τ := by
  rintro ⟨i, budget, hserving, hworker, -⟩
  rcases h i _ hworker rfl with hclosing | hstopped
  · cases hclosing
  · have hrunning := hserving.2
    rw [hstopped] at hrunning
    cases hrunning

theorem State.Tells.ordinary {τ : Tiding}
    (hs : s.system.Served → s.bus.shared.lifecycle.state = .running) (h : s.Tells τ) :
    τ = .ordinary := by
  obtain ⟨i, -, hserving, -, ⟨-, hτ⟩ | ⟨hfaulted, -⟩⟩ := h
  · exact hτ
  · simp [hs (.inr ⟨i, hserving⟩)] at hfaulted

theorem State.Tells.fault {τ : Tiding} (hs : s.bus.shared.lifecycle.state ≠ .running)
    (h : s.Tells τ) : τ = .fault := by
  obtain ⟨-, -, -, -, ⟨hrunning, -⟩ | ⟨-, hτ⟩⟩ := h
  · exact absurd hrunning hs
  · exact hτ

theorem not_coming_of_recorded {pc pc' : WorkerPc}
    (hs : s.Piped platform sole) (hworker : s.worker i = some pc) (hrunning : pc.isFinished = false)
    (hleft : t.worker i = some pc') (huncommitted : pc'.committed = none)
    (hundecided : ∀ budget received time, pc' ≠ .received budget received time)
    (hcall : t.call = none) (hothers : ∀ j, j ≠ i → t.runtime j = s.runtime j) (τ : Tiding) :
    ¬ t.Coming τ := by
  have honly (j : ℕ) (hj : (t.runtime j).Working) : j = i :=
    only_after hs hworker hrunning hothers j hj
  intro hcoming
  cases hcoming with
  | @committed j q worker commits =>
    obtain rfl : j = i := by
      refine honly j ⟨q, worker, ?_⟩
      cases q <;> first | rfl | cases commits
    rw [hleft] at worker
    cases worker
    simp [huncommitted] at commits
  | received serving worker told =>
    obtain rfl := honly _ serving.1
    rw [hleft] at worker
    cases worker
    exact hundecided _ _ _ rfl
  | answered serving call | popping serving call => simp [hcall] at call

theorem receiving_agrees {a : Action} {es : List Event} (hs : s.Piped platform sole)
    (ho : s.Opened) (hp : t.Piped platform sole) (hq : t.Opened)
    (hk : Standing.receiving.Agrees s) (h : step platform s a = some (t, es)) :
    (t.system.Served →
        t.bus.shared.lifecycle.state = .running ∨ landmarks s a = [.latched]) ∧
      ∀ τ, t.Coming τ → τ = .ordinary := by
  refine ⟨step_served_running hs ho hp hq hk.1 h, fun τ hτ => ?_⟩
  exact (step_coming hs ho h hτ).elim (hk.2 τ) (State.Tells.ordinary hk.1)

theorem faulted_agrees {underway : Bool} {a : Action} {es : List Event}
    (hs : s.Piped platform sole) (ho : s.Opened) (hreconciles : s.bus.control.Reconciles)
    (hk : (Standing.faulted underway).Agrees s) (hopens : landmarks s a ≠ [.opened])
    (h : step platform s a = some (t, es)) : (Standing.faulted underway).Agrees t := by
  refine ⟨fun ht => ?_, fun τ hτ => ?_⟩
  · exact ((step_running hs hreconciles h).2 ht).elim hk.1 hopens
  · exact (step_coming hs ho h hτ).elim (hk.2 τ) fun htells => .inl (htells.fault hk.1)

theorem ended_agrees {a : Action} {es : List Event} (hs : s.Piped platform sole) (ho : s.Opened)
    (hk : Standing.ended.Agrees s) (hopens : landmarks s a ≠ [.opened])
    (h : step platform s a = some (t, es)) : Standing.ended.Agrees t := by
  obtain ⟨hnot, hnone, hclosed⟩ := hk
  refine ⟨fun ht => ?_, fun τ hτ => ?_, step_closed hs hnot hclosed h⟩
  · exact (step_launching hs h ht).elim hnot hopens
  · exact (step_coming hs ho h hτ).elim (hnone τ) hclosed.not_tells

theorem step_agrees {k : Standing} {a : Action} {es : List Event} (hs : s.Piped platform sole)
    (ho : s.Opened) (hreconciles : s.bus.control.Reconciles) (hk : k.Agrees s)
    (hp : t.Piped platform sole) (hq : t.Opened) (h : step platform s a = some (t, es)) :
    ∃ k', faultReports.accept k (reports platform s a) = some k' ∧ k'.Agrees t := by
  have hreported := step_reported hs h
  generalize reports platform s a = view at hreported ⊢
  cases hreported with
  | opened opens =>
    obtain ⟨hvacant, hstate⟩ := step_opens hs h opens
    refine ⟨.receiving, by cases k <;> rfl, fun _ => hstate, fun τ hτ => ?_⟩
    rcases step_coming hs ho h hτ with hbefore | ⟨i, budget, hserving, -⟩
    · obtain ⟨i, hworking⟩ := hbefore.working
      exact absurd hworking (hvacant i)
    · exact absurd hserving.1 (hvacant i)
  | quiet calm =>
    refine ⟨k, rfl, ?_⟩
    have hopens : landmarks s a ≠ [.opened] := by simp [calm]
    cases k with
    | receiving =>
      obtain ⟨hstate, hcoming⟩ := receiving_agrees hs ho hp hq hk h
      exact ⟨fun ht => (hstate ht).resolve_right (by simp [calm]), hcoming⟩
    | faulted underway => exact faulted_agrees hs ho hreconciles hk hopens h
    | ended => exact ended_agrees hs ho hk hopens h
  | latched latches =>
    have hopens : landmarks s a ≠ [.opened] := by simp [latches]
    cases k with
    | receiving =>
      obtain ⟨-, hcoming⟩ := receiving_agrees hs ho hp hq hk h
      have hfaulted := step_latches hs h latches
      exact ⟨.faulted true, rfl, by simp [hfaulted], fun τ hτ => .inr ⟨hcoming τ hτ, rfl⟩⟩
    | faulted underway =>
      exact ⟨.faulted underway, rfl, faulted_agrees hs ho hreconciles hk hopens h⟩
    | ended => exact ⟨.ended, rfl, ended_agrees hs ho hk hopens h⟩
  | @recorded i budget outcome time pc calm worker left closing uncommitted undecided call others =>
    have hopens : landmarks s a ≠ [.opened] := by simp [calm]
    have hnone := not_coming_of_recorded hs worker rfl left uncommitted undecided call others
    have hnow : s.Coming outcome.tiding := .committed worker rfl
    have hend (hterminal : outcome.terminal = true) : Standing.ended.Agrees t := by
      refine ⟨fun ht => ?_, hnone, fun j q hq hrunning => .inl ?_⟩
      · have hlaunching := (step_launching hs h ht).resolve_right hopens
        exact hs.staffed.vacant hlaunching i ⟨_, worker, rfl⟩
      · obtain rfl := only_after hs worker rfl others j ⟨q, hq, hrunning⟩
        rw [left] at hq
        cases hq
        rw [closing, hterminal]
    cases k with
    | receiving =>
      have hordinary := hk.2 _ hnow
      by_cases hterminal : outcome.terminal = true
      · exact ⟨.ended, by simp [faultReports, Standing.next, hordinary, hterminal], hend hterminal⟩
      · obtain ⟨hstate, hcoming⟩ := receiving_agrees hs ho hp hq hk h
        exact ⟨.receiving, by simp [faultReports, Standing.next, hordinary, hterminal],
          fun ht => (hstate ht).resolve_right (by simp [calm]), hcoming⟩
    | faulted underway =>
      have hallowed := hk.2 _ hnow
      by_cases hterminal : outcome.terminal = true
      · exact ⟨.ended, by simp [faultReports, Standing.next, hallowed, hterminal], hend hterminal⟩
      · obtain ⟨hstate, -⟩ := faulted_agrees hs ho hreconciles hk hopens h
        exact ⟨.faulted false, by simp [faultReports, Standing.next, hallowed, hterminal], hstate,
          fun τ hτ => absurd hτ (hnone τ)⟩
    | ended => exact absurd hnow (hk.2.1 _)

end

theorem initial_agrees (configuration : ℕ → CanBus.Configuration) :
    Standing.ended.Agrees (initial configuration) := by
  have hnobody (i : ℕ) : ¬ ((initial configuration).runtime i).Working := Runtimes.not_working_init
  refine ⟨?_, fun τ hτ => ?_, fun i pc hpc hrunning => absurd ⟨pc, hpc, hrunning⟩ (hnobody i)⟩
  · rintro (hstarting | ⟨i, ⟨hpc, -⟩ | hlaunching⟩)
    · cases hstarting
    · cases hpc
    · cases hlaunching
  · obtain ⟨i, hworking⟩ := hτ.working
    exact hnobody i hworking

theorem run_reports {platform : Platform} {sole : ℕ} {configuration : ℕ → CanBus.Configuration}
    {s : State} {as : List Action} {es : List Event}
    (hC : (machine platform).Along (Permitted platform sole) (initial configuration) as)
    (hrun : (machine platform).run (initial configuration) as = some (s, es)) :
    ∃ k, faultReports.accept .ended
      ((machine platform).history (reports platform) (initial configuration) as) = some k := by
  have hall := (machine platform).run_history_along (h := [])
    (I := fun h s => s.Piped platform sole ∧ s.Opened ∧ s.bus.control.Reconciles ∧
      ∃ k, faultReports.accept .ended h = some k ∧ k.Agrees s)
    (fun h s a t es ⟨hs, ho, hreconciles, k, haccept, hk⟩ hC hstep => by
      have hp := step_piped hs hC hstep
      have hq := step_opened hs ho hC hstep
      obtain ⟨k', hnext, hk'⟩ := step_agrees hs ho hreconciles hk hp hq hstep
      exact ⟨hp, hq, (step_running hs hreconciles hstep).1, k',
        (Acceptor.accept_append_eq_some _).mpr ⟨k, haccept, hnext⟩, hk'⟩)
    ⟨initial_piped platform sole configuration, initial_opened configuration, trivial, .ended, rfl,
      initial_agrees configuration⟩ hC hrun
  obtain ⟨-, -, -, k, haccept, -⟩ := hall
  exact ⟨k, by simpa using haccept⟩

/-! ## What the reports say -/

def Report.outcome? : Report → Option Outcome
  | recorded outcome => some outcome
  | _ => none

def outcomes (h : List Report) : List Outcome := h.filterMap Report.outcome?

theorem next_recorded {k k' : Standing} {outcome : Outcome}
    (h : faultReports.next k (.recorded outcome) = some k') :
    (k = .receiving ∧ outcome.tiding = .ordinary) ∨
      ∃ underway, k = .faulted underway ∧
        (outcome.tiding = .fault ∨ (outcome.tiding = .ordinary ∧ underway = true)) := by
  cases k with
  | receiving =>
    simp only [faultReports, Standing.next, Option.ite_none_right_eq_some] at h
    exact .inl ⟨rfl, h.1⟩
  | faulted underway =>
    simp only [faultReports, Standing.next, Option.ite_none_right_eq_some] at h
    exact .inr ⟨underway, rfl, h.1⟩
  | ended => cases h

theorem next_terminal {k k' : Standing} {outcome : Outcome} (hterminal : outcome.terminal = true)
    (h : faultReports.next k (.recorded outcome) = some k') : k' = .ended := by
  cases k with
  | receiving | faulted =>
    simp only [faultReports, Standing.next, Option.ite_none_right_eq_some, hterminal,
      if_true] at h
    exact (Option.some.inj h.2).symm
  | ended => cases h

theorem latched_of_faulted {h : List Report} {k : Standing} {underway : Bool}
    (haccept : faultReports.accept .ended h = some k) (hk : k = .faulted underway) :
    ∃ k₁ k₂, h = k₁ ++ .latched :: k₂ ∧ .opened ∉ k₂ := by
  have hall : ∀ underway, k = .faulted underway →
      ∃ k₁ k₂, [] ++ h = k₁ ++ .latched :: k₂ ∧ .opened ∉ k₂ := by
    refine faultReports.accept_invariant (I := fun h k => ∀ underway, k = .faulted underway →
      ∃ k₁ k₂, h = k₁ ++ .latched :: k₂ ∧ .opened ∉ k₂) (fun h k e k' hI hnext underway hk' => ?_)
      (by simp) haccept
    subst hk'
    have hbefore (e : Report) (he : e ≠ .opened) {underway : Bool} (hk : k = .faulted underway) :
        ∃ k₁ k₂, h ++ [e] = k₁ ++ .latched :: k₂ ∧ .opened ∉ k₂ := by
      obtain ⟨k₁, k₂, rfl, hnot⟩ := hI underway hk
      exact ⟨k₁, k₂ ++ [e], by simp, by simp [hnot, he.symm]⟩
    cases e with
    | opened => cases k <;> cases hnext
    | latched => exact ⟨h, [], rfl, by simp⟩
    | recorded outcome =>
      rcases next_recorded hnext with ⟨rfl, -⟩ | ⟨underway', hk, -⟩
      · simp only [faultReports, Standing.next, Option.ite_none_right_eq_some] at hnext
        split_ifs at hnext <;> simp at hnext
      · exact hbefore _ (by simp) hk
  exact hall underway hk

/-- Until the next start no more than one outcome is recorded before the fault. -/
theorem standing_of_latched {h : List Report} {k k' : Standing} (hk : k ≠ .receiving)
    (haccept : faultReports.accept k h = some k') (hopened : .opened ∉ h) :
    k' ≠ .receiving ∧ (k' = .faulted true → outcomes h = []) := by
  have hall : Report.opened ∉ [] ++ h → k' ≠ .receiving ∧
      (k' = .faulted true → outcomes ([] ++ h) = []) := by
    refine faultReports.accept_invariant (h := []) (I := fun h k => .opened ∉ h →
      k ≠ .receiving ∧ (k = .faulted true → outcomes h = [])) (fun h k e k' hI hnext hopened => ?_)
      (fun _ => ⟨hk, fun _ => rfl⟩) haccept
    simp only [List.mem_append, List.mem_singleton, not_or] at hopened
    obtain ⟨hreceiving, houtcomes⟩ := hI hopened.1
    cases e with
    | opened => exact absurd rfl hopened.2
    | latched =>
      cases k with
      | receiving => exact absurd rfl hreceiving
      | faulted | ended =>
        cases hnext
        refine ⟨hreceiving, fun heq => ?_⟩
        rw [outcomes, List.filterMap_append]
        exact List.append_eq_nil_iff.mpr ⟨houtcomes heq, rfl⟩
    | recorded outcome =>
      cases k with
      | receiving => exact absurd rfl hreceiving
      | faulted underway =>
        simp only [faultReports, Standing.next, Option.ite_none_right_eq_some] at hnext
        obtain ⟨-, hnext⟩ := hnext
        split_ifs at hnext <;> cases hnext <;> simp
      | ended => cases hnext
  exact hall (by simpa using hopened)

theorem standing_of_ended {h : List Report} {k : Standing}
    (haccept : faultReports.accept .ended h = some k) (hopened : .opened ∉ h) : k = .ended := by
  have hall : Report.opened ∉ [] ++ h → k = .ended := by
    refine faultReports.accept_invariant (I := fun h k => .opened ∉ h → k = .ended)
      (fun h k e k' hI hnext hopened => ?_) (fun _ => rfl) haccept
    simp only [List.mem_append, List.mem_singleton, not_or] at hopened
    obtain rfl := hI hopened.1
    cases e with
    | opened => exact absurd rfl hopened.2
    | latched => exact (Option.some.inj hnext).symm
    | recorded outcome => cases hnext
  exact hall (by simpa using hopened)

/-- In every permitted order of the operation in progress, workers, tasks and
observers, and whatever the driver answers: no worker records `NotStarted`; it records
a fault of its source only behind one that a receive task has latched since the last
accepted start; behind a latched fault it records at most one outcome more before it
records the fault; and nothing is recorded behind a terminal outcome until the next
accepted start. -/
theorem fault_reports {platform : Platform} {sole : ℕ} {configuration : ℕ → CanBus.Configuration}
    {s : State} {as : List Action} {es : List Event}
    (hC : (machine platform).Along (Permitted platform sole) (initial configuration) as)
    (hrun : (machine platform).run (initial configuration) as = some (s, es))
    {before after : List Report} {outcome : Outcome}
    (hrecorded : (machine platform).history (reports platform) (initial configuration) as =
      before ++ .recorded outcome :: after) :
    outcome ≠ .notStarted ∧
      (outcome = .fault → ∃ h₁ h₂, before = h₁ ++ .latched :: h₂ ∧ .opened ∉ h₂) ∧
      (∀ h₁ h₂, before = h₁ ++ .latched :: h₂ → .opened ∉ h₂ →
        outcome = .fault ∨ outcomes h₂ = []) ∧
      ∀ h₁ earlier h₂, before = h₁ ++ .recorded earlier :: h₂ → earlier.terminal = true →
        .opened ∈ h₂ := by
  obtain ⟨k, haccept⟩ := run_reports hC hrun
  rw [hrecorded] at haccept
  obtain ⟨k₁, hbefore, hafter⟩ := (Acceptor.accept_append_eq_some _).mp haccept
  obtain ⟨k₂, hnext, -⟩ := (Acceptor.accept_cons_eq_some _).mp hafter
  have hstanding := next_recorded hnext
  refine ⟨?_, ?_, fun h₁ h₂ heq hopened => ?_, fun h₁ earlier h₂ heq hterminal => ?_⟩
  · rintro rfl
    rcases hstanding with ⟨-, htiding⟩ | ⟨-, -, htiding | ⟨htiding, -⟩⟩ <;> cases htiding
  · rintro rfl
    rcases hstanding with ⟨-, htiding⟩ | ⟨underway, hk, -⟩
    · cases htiding
    · exact latched_of_faulted hbefore hk
  · rw [heq] at hbefore
    obtain ⟨k₃, -, hrest⟩ := (Acceptor.accept_append_eq_some _).mp hbefore
    obtain ⟨k₄, hlatched, hrest⟩ := (Acceptor.accept_cons_eq_some _).mp hrest
    have hk₄ : k₄ ≠ .receiving := by
      rintro rfl
      cases k₃ <;> cases hlatched
    obtain ⟨hreceiving, houtcomes⟩ := standing_of_latched hk₄ hrest hopened
    rcases hstanding with ⟨hk, -⟩ | ⟨underway, hk, htiding | ⟨-, rfl⟩⟩
    · exact absurd hk hreceiving
    · refine .inl ?_
      cases outcome <;> first | rfl | cases htiding
    · exact .inr (houtcomes hk)
  · by_contra hopened
    rw [heq] at hbefore
    obtain ⟨k₃, -, hrest⟩ := (Acceptor.accept_append_eq_some _).mp hbefore
    obtain ⟨k₄, hearlier, hrest⟩ := (Acceptor.accept_cons_eq_some _).mp hrest
    obtain rfl := next_terminal hterminal hearlier
    obtain rfl := standing_of_ended hrest hopened
    cases hnext

/-- A fault is latched while the worker of runtime 0 has received a frame. -/
def latchSchedule : List Action :=
  let worker (n : ℕ) : List Action := List.replicate n (.runtime 0 (.worker {}))
  (Runtimes.launchSchedule 0 37).map ofSystem ++ (CanBus.messageSchedule 0 5 17).map .bus ++
    worker 2 ++ .receive 0 :: List.replicate 9 (.bus (.consumer true)) ++
    (CanBus.faultSchedule 0 6).map .bus ++ worker 10 ++ [.receive 0, .bus (.consumer true)] ++
    worker 8

theorem fault_reports_latch : ∃ s es,
    (machine .host).run (initial fun _ => {}) latchSchedule = some (s, es) ∧
      ∃ h₁ h₂, (machine .host).history (reports .host) (initial fun _ => {}) latchSchedule =
        h₁ ++ .latched :: h₂ ++ [.recorded .fault] ∧ .opened ∉ h₂ := by
  have hdone : ((machine .host).run (initial fun _ => {}) latchSchedule).isSome = true := by
    decide +kernel
  have hhistory : (machine .host).history (reports .host) (initial fun _ => {}) latchSchedule =
      [.opened, .latched, .recorded (.frame { identifier := 5 } .processed)] ++
        [.recorded .fault] := by
    decide +kernel
  have hC : (machine .host).Along (Permitted .host 0) (initial fun _ => {}) latchSchedule := by
    decide +kernel
  obtain ⟨⟨s, es⟩, hrun⟩ := Option.isSome_iff_exists.mp hdone
  obtain ⟨h₁, h₂, hbefore, hopened⟩ := (fault_reports hC hrun hhistory).2.1 rfl
  exact ⟨s, es, hrun, h₁, h₂, by rw [hhistory, hbefore], hopened⟩

end Pipeline
end Telemetry
end VehicleCanCore
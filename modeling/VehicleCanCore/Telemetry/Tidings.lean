import VehicleCanCore.CanBus.RunningState
import VehicleCanCore.Telemetry.OpenInterval

/-!
# What the workers are told

A `receive` call takes what it tells from the state of the acquisition, the worker
takes it from the call, and goes on to record it. What is on its way to the record
has been told while the state was what it tells.
-/

namespace VehicleCanCore
namespace Telemetry

open VehicleCanCore.Core Automata

/-! ## Tidings of the source -/

/-- What a worker is told by its source. -/
inductive Tiding
  | ordinary
  | fault
  | notStarted
  deriving DecidableEq, Repr

def Received.tiding : Received → Tiding
  | .frame _ | .timeout => .ordinary
  | .fault => .fault
  | .notStarted => .notStarted

def Outcome.tiding : Outcome → Tiding
  | frame _ _ | timeout => .ordinary
  | fault => .fault
  | notStarted => .notStarted

/-- What a worker is going to record that has looked at the stop request. -/
def WorkerPc.committed : WorkerPc → Option Tiding
  | process _ _ _ => some .ordinary
  | refresh _ outcome _ _ | record _ outcome _ => some outcome.tiding
  | _ => none

namespace Pipeline

/-- An answer that `receive` gives inside an interval. -/
theorem interval_answer {n : ℕ} {s : CanBus.State} {ok : Bool} {g : CanBus.Shared}
    {c : CanBus.ReceivePc} {es : List CanBus.Event} {received : Received} (h : s.InInterval n)
    (hstep : CanBus.receiveStep s.shared ok s.consumer = some (g, c, es))
    (hanswer : es.findSome? answer? = some received) :
    ((∃ pc, s.consumer = .pop pc) ∧ received.tiding = .ordinary) ∨
      (s.shared.lifecycle.state = .running ∧ received.tiding = .ordinary) ∨
      (s.shared.lifecycle.state = .faulted ∧ received.tiding = .fault) := by
  obtain ⟨pc, -, hinterval⟩ := h.task
  have hstate := h.wakeupsAgree.state
  have hnone := h.wakeupsAgree.pops
  generalize s.consumer = consumer at hstep hnone
  cases consumer with
  | idle => cases hstep
  | enter | woken =>
    rcases hstate with hstate | hstate <;>
      simp only [CanBus.receiveStep, hstate, CanBus.notRunningResult] at hstep <;> cases hstep
    · cases hanswer
    · cases hanswer
      exact .inr (.inr ⟨hstate, rfl⟩)
  | wait =>
    simp only [CanBus.receiveStep] at hstep
    split at hstep <;> split_ifs at hstep <;> cases hstep <;> cases hanswer
  | expired =>
    rcases hstate with hstate | hstate <;>
      simp only [CanBus.receiveStep, hstate, CanBus.notRunningResult] at hstep <;> cases hstep <;>
      cases hanswer
    · exact .inr (.inl ⟨hstate, rfl⟩)
    · exact .inr (.inr ⟨hstate, rfl⟩)
  | pop pc =>
    refine .inl ⟨⟨_, rfl⟩, ?_⟩
    cases pc with
    | done frame =>
      cases frame with
      | none => exact absurd rfl hnone
      | some frame =>
        cases hstep
        cases hanswer
        rfl
    | _ =>
      simp only [CanBus.receiveStep, Option.map_eq_some_iff, Prod.exists] at hstep
      obtain ⟨_, _, es', -, heq⟩ := hstep
      cases heq
      have hquiet : (es'.map CanBus.Event.ring).findSome? answer? = none :=
        answer_quiet (by simp [CanBus.Event.ofConsumer])
      rw [hquiet] at hanswer
      cases hanswer

/-- A `receive` call looks for a frame when it has found the acquisition running. -/
theorem popping_of_step {g g' : CanBus.Shared} {ok : Bool} {c : CanBus.ReceivePc}
    {pc : CanBus.FrameRing.PopPc 32} {es : List CanBus.Event}
    (h : CanBus.receiveStep g ok c = some (g', .pop pc, es)) :
    (∃ pc', c = .pop pc') ∨ g.lifecycle.state = .running := by
  cases c with
  | idle => cases h
  | woken =>
    right
    cases hstate : g.lifecycle.state <;>
      simp [CanBus.receiveStep, hstate, CanBus.notRunningResult] at h ⊢
  | enter =>
    simp only [CanBus.receiveStep] at h
    split at h <;> cases h
  | wait =>
    simp only [CanBus.receiveStep] at h
    split at h <;> split_ifs at h <;> cases h
  | expired => cases h
  | pop pc => exact .inl ⟨_, rfl⟩

/-! ## What is on its way to the record -/

/-- A worker is told this, or is going to record it. -/
inductive State.Coming (s : State) (τ : Tiding) : Prop
  | committed {i : ℕ} {pc : WorkerPc} (worker : s.worker i = some pc)
    (commits : pc.committed = some τ)
  | received {i : ℕ} {budget : WorkBudget} {received : Received} {time : UInt64}
    (serving : (s.runtime i).Serving)
    (worker : s.worker i = some (.received budget received time)) (told : received.tiding = τ)
  | answered {i : ℕ} {received : Received} (serving : (s.runtime i).Serving)
    (call : s.call = some ⟨i, some received⟩) (told : received.tiding = τ)
  | popping {i : ℕ} {pc : CanBus.FrameRing.PopPc 32} (serving : (s.runtime i).Serving)
    (call : s.call = some ⟨i, none⟩) (consumer : s.bus.consumer = .pop pc) (told : τ = .ordinary)

/-- A `receive` call takes its tiding from the state of the acquisition. -/
def State.Tells (s : State) (τ : Tiding) : Prop :=
  ∃ i budget, (s.runtime i).Serving ∧ s.worker i = some (.receive budget) ∧
    ((s.bus.shared.lifecycle.state = .running ∧ τ = .ordinary) ∨
      (s.bus.shared.lifecycle.state = .faulted ∧ τ = .fault))

theorem workerStep_committed {r r' : Runtime} {input : WorkerInput} {pc pc' : WorkerPc}
    {es : List Telemetry.Event} {τ : Tiding} (h : workerStep r input pc = some (r', pc', es))
    (hcommits : pc'.committed = some τ) :
    pc.committed = some τ ∨ (r.stopRequested = false ∧
      ∃ budget received time, pc = .received budget received time ∧ received.tiding = τ) := by
  cases pc with
  | finished => cases h
  | received budget received time =>
    simp only [workerStep] at h
    split_ifs at h with hstop
    · cases h
      cases hcommits
    · refine .inr ⟨Bool.eq_false_iff.mpr hstop, _, _, _, rfl, ?_⟩
      cases received <;> cases h <;> exact Option.some.inj hcommits
  | process =>
    cases h
    exact .inl hcommits
  | refresh budget outcome time pc =>
    simp only [workerStep, Option.map_eq_some_iff, Prod.exists] at h
    obtain ⟨r'', pc'', -, heq⟩ := h
    cases heq
    cases pc'' <;> exact .inl hcommits
  | record budget outcome time =>
    cases outcome <;> cases h <;> cases hcommits
  | afterReceive =>
    simp only [workerStep] at h
    split at h <;> cases h <;> cases hcommits
  | loopHead | onDiagnostics | completed | batchDone | checkpoint | beginPause | pause =>
    cases h
    split at hcommits <;> cases hcommits
  | _ =>
    cases h
    cases hcommits

/-- A worker only comes to what it has received by a `receive` call. -/
theorem workerStep_received {r r' : Runtime} {input : WorkerInput} {pc : WorkerPc}
    {budget : WorkBudget} {received : Received} {time : UInt64} {es : List Telemetry.Event}
    (h : workerStep r input pc = some (r', .received budget received time, es)) :
    pc.receives = true := by
  cases pc with
  | receive => rfl
  | finished => cases h
  | received _ received =>
    simp only [workerStep] at h
    split_ifs at h
    · cases h
    · cases received <;> cases h
  | refresh _ _ _ pc =>
    simp only [workerStep, Option.map_eq_some_iff, Prod.exists] at h
    obtain ⟨_, pc'', -, heq⟩ := h
    cases pc'' <;> cases heq
  | record _ outcome =>
    cases outcome <;> cases h
  | afterReceive =>
    simp only [workerStep] at h
    split at h <;> cases h
  | loopHead | onDiagnostics | completed | batchDone | checkpoint | beginPause | pause =>
    simp only [workerStep] at h
    split_ifs at h <;> cases h
  | _ => cases h

section

variable {platform : Platform} {sole : ℕ} {s t : State} {i : ℕ} {τ : Tiding}

/-- Where a worker is that somebody else's step has left alone. -/
theorem worker_before {a : Telemetry.Action} {system : Runtimes.State}
    {es : List Runtimes.Event} (hs : s.Piped platform sole) (ha : ∀ input, a ≠ .worker input)
    (hstep : Runtimes.step platform s.system (.runtime i a) = some (system, es)) {j : ℕ}
    {pc : WorkerPc} (hworker : (system.runtimes j).worker = some pc) (hpc : pc ≠ .begin) :
    s.worker j = some pc ∧ ((system.runtimes j).Serving → (s.runtime j).Serving) := by
  obtain ⟨r, fs, hruntime, hruntimes⟩ := Runtimes.step_runtime_runtimes hstep
  rw [hruntimes] at hworker ⊢
  split_ifs at hworker ⊢ with hj
  · subst hj
    rcases step_worker_kept (hs.staffed.agreed.runtimes j) ha hruntime with
      ⟨hsame, hstop⟩ | ⟨-, hnone | ⟨-, hbegin⟩⟩
    · rw [hsame] at hworker
      refine ⟨hworker, fun hserving => ?_⟩
      have hworking : (s.system.runtimes j).Working := by
        obtain ⟨q, hq, hrunning⟩ := hserving.1
        exact ⟨q, hsame ▸ hq, hrunning⟩
      refine ⟨hworking, ?_⟩
      rw [State.runtime, ← Bool.not_eq_true]
      intro hrequested
      have hstopped := hstop hworking hrequested
      simp [hserving.2] at hstopped
    · rw [hnone] at hworker
      cases hworker
    · rw [hbegin] at hworker
      cases hworker
      exact absurd rfl hpc
  · exact ⟨hworker, id⟩

theorem runtime_coming {a : Telemetry.Action} {system : Runtimes.State}
    {es : List Runtimes.Event} (hs : s.Piped platform sole) (ha : ∀ input, a ≠ .worker input)
    (hstep : Runtimes.step platform s.system (.runtime i a) = some (system, es))
    (h : ({ s with system := system } : State).Coming τ) : s.Coming τ := by
  have hcalling {j : ℕ} {answer : Option Received} (hcall : s.call = some ⟨j, answer⟩)
      (hserving : (system.runtimes j).Serving) : (s.runtime j).Serving := by
    obtain ⟨budget, hworker⟩ := hs.coupled.calling _ hcall
    have hkept := hs.runtime_worker (fun input hi => absurd hi (ha input)) hworker rfl hstep
    exact (worker_before hs ha hstep hkept (by simp)).2 hserving
  cases h with
  | committed worker commits =>
    refine .committed (worker_before hs ha hstep worker ?_).1 commits
    rintro rfl
    cases commits
  | received serving worker told =>
    obtain ⟨hworker, hserving⟩ := worker_before hs ha hstep worker (by simp)
    exact .received (hserving serving) hworker told
  | answered serving call told => exact .answered (hcalling call serving) call told
  | popping serving call consumer told =>
    have hconsumer := (hs.runtime_step hstep).2.2.1.symm.trans consumer
    exact .popping (hcalling call serving) call hconsumer told

theorem worker_coming {input : WorkerInput} {pc : WorkerPc} {system : Runtimes.State}
    {es : List Runtimes.Event} (hs : s.Piped platform sole) (hworker : s.worker i = some pc)
    (hreceives : pc.receives = false)
    (hstep : Runtimes.step platform s.system (.runtime i (.worker input)) = some (system, es))
    (h : ({ s with system := system } : State).Coming τ) : s.Coming τ := by
  obtain ⟨r', pc', fs, hwork, -, hself, hothers⟩ := worker_step hworker hstep
  have hrunning := (workerStep_effect hwork).running
  have hcall := hs.call_eq_none hworker hrunning hreceives
  cases h with
  | @committed j pc'' worker commits =>
    by_cases hj : j = i
    · subst hj
      rw [State.worker, State.runtime, hself] at worker
      cases worker
      rcases workerStep_committed hwork commits with hbefore | ⟨hstop, _, _, _, rfl, htold⟩
      · exact .committed hworker hbefore
      · exact .received ⟨⟨_, hworker, rfl⟩, hstop⟩ hworker htold
    · rw [State.worker, State.runtime, hothers j hj] at worker
      exact .committed worker commits
  | @received j _ _ _ serving worker told =>
    by_cases hj : j = i
    · subst hj
      rw [State.worker, State.runtime, hself] at worker
      cases worker
      rw [workerStep_received hwork] at hreceives
      cases hreceives
    · rw [State.worker, State.runtime, hothers j hj] at worker
      rw [State.runtime, hothers j hj] at serving
      exact .received serving worker told
  | answered serving call => simp [hcall] at call
  | popping serving call => simp [hcall] at call

/-- The worker takes the answer of its call. -/
theorem taken_coming {input : WorkerInput} {budget : WorkBudget} {received : Received}
    {system : Runtimes.State} {es : List Runtimes.Event}
    (hworker : s.worker i = some (.receive budget)) (hcall : s.call = some ⟨i, some received⟩)
    (hstep : Runtimes.step platform s.system
      (.runtime i (.worker { input with received := received })) = some (system, es))
    (h : ({ system := system } : State).Coming τ) : s.Coming τ := by
  obtain ⟨r', pc', fs, hwork, -, hself, hothers⟩ := worker_step hworker hstep
  cases hwork
  cases h with
  | @committed j pc'' worker commits =>
    by_cases hj : j = i
    · subst hj
      rw [State.worker, State.runtime, hself] at worker
      cases worker
      cases commits
    · rw [State.worker, State.runtime, hothers j hj] at worker
      exact .committed worker commits
  | @received j _ _ _ serving worker told =>
    by_cases hj : j = i
    · subst hj
      rw [State.worker, State.runtime, hself] at worker
      rw [State.runtime, hself] at serving
      cases worker
      exact .answered ⟨⟨_, hworker, rfl⟩, serving.2⟩ hcall told
    · rw [State.worker, State.runtime, hothers j hj] at worker
      rw [State.runtime, hothers j hj] at serving
      exact .received serving worker told
  | answered serving call => cases call
  | popping serving call => cases call

theorem bus_coming {a : CanBus.Action} {b : CanBus.State} {es : List CanBus.Event}
    {system : Runtimes.State} {fs : List Runtimes.Event} (hs : s.Piped platform sole)
    (ho : s.Opened) (ha : beginsReceive a = false) (hbus : CanBus.step s.bus a = some (b, es))
    (hstep : Runtimes.step platform s.system (.bus a) = some (system, fs))
    (h : ({ system := system
            call := s.call.map fun call =>
              { call with answer := call.answer <|> es.findSome? answer? } } : State).Coming τ) :
    s.Coming τ ∨ s.Tells τ := by
  obtain ⟨rfl, hruntimes⟩ := bus_of_system hbus hstep
  have hruntime (j : ℕ) : ({ system := system
                             call := s.call.map fun call =>
      { call with answer := call.answer <|> es.findSome? answer? } } : State).runtime j =
        s.runtime j := by
    rw [State.runtime, hruntimes]
    rfl
  have hstate : ∀ {j : ℕ}, (s.runtime j).Serving → ∃ n, s.bus.InInterval n := fun hserving =>
    ho.interval (.inr ⟨_, hserving⟩)
  cases h with
  | committed worker commits =>
    rw [State.worker, hruntime] at worker
    exact .inl (.committed worker commits)
  | received serving worker told =>
    rw [hruntime] at serving
    rw [State.worker, hruntime] at worker
    exact .inl (.received serving worker told)
  | @answered j received serving call told =>
    rw [hruntime] at serving
    obtain ⟨⟨k, answer⟩, hcall, heq⟩ := Option.map_eq_some_iff.mp call
    simp only [Call.mk.injEq] at heq
    obtain ⟨rfl, hanswer⟩ := heq
    cases answer with
    | some received' =>
      cases hanswer
      exact .inl (.answered serving hcall told)
    | none =>
      have hanswer : es.findSome? answer? = some received := hanswer
      rcases step_consumer ha hbus with ⟨ok, hconsumer⟩ | ⟨-, hquiet⟩
      · obtain ⟨n, hinterval⟩ := hstate serving
        obtain ⟨budget, hworker⟩ := hs.coupled.calling _ hcall
        rcases interval_answer hinterval hconsumer hanswer with ⟨⟨pc, hpop⟩, hordinary⟩ | htells
        · exact .inl (.popping serving hcall hpop (told ▸ hordinary))
        · exact .inr ⟨k, budget, serving, hworker, told ▸ htells⟩
      · rw [hquiet] at hanswer
        cases hanswer
  | @popping j pc serving call consumer told =>
    rw [hruntime] at serving
    obtain ⟨⟨k, answer⟩, hcall, heq⟩ := Option.map_eq_some_iff.mp call
    simp only [Call.mk.injEq] at heq
    obtain ⟨rfl, hanswer⟩ := heq
    cases answer with
    | some received' => cases hanswer
    | none =>
      obtain ⟨budget, hworker⟩ := hs.coupled.calling _ hcall
      have hconsumer' : system.sources.bus.consumer = .pop pc := consumer
      rcases step_consumer ha hbus with ⟨ok, hconsumer⟩ | ⟨hsame, -⟩
      · rw [hconsumer'] at hconsumer
        rcases popping_of_step hconsumer with ⟨pc', hpop⟩ | hrunning
        · exact .inl (.popping serving hcall hpop told)
        · exact .inr ⟨k, budget, serving, hworker, .inl ⟨hrunning, told⟩⟩
      · exact .inl (.popping serving hcall (hsame.symm.trans hconsumer') told)

/-- What comes has come before, or is just being told. -/
theorem step_coming {a : Action} {es : List Event} (hs : s.Piped platform sole) (ho : s.Opened)
    (h : step platform s a = some (t, es)) (ht : t.Coming τ) : s.Coming τ ∨ s.Tells τ := by
  cases step_cases h with
  | taken receives answered hstep => exact .inl (taken_coming receives answered hstep ht)
  | @runtime i a system fs elsewhere hstep =>
    by_cases ha : ∃ input, a = .worker input
    · obtain ⟨input, rfl⟩ := ha
      obtain ⟨r, gs, hruntime, -⟩ := Runtimes.step_runtime_runtimes hstep
      obtain ⟨pc, -, -, hpc, -⟩ := step_worker hruntime
      have hworker : s.worker i = some pc := hpc
      have hreceives := elsewhere input rfl
      rw [hworker] at hreceives
      exact .inl (worker_coming hs hworker hreceives hstep ht)
    · exact .inl (runtime_coming hs (fun input heq => ha ⟨input, heq⟩) hstep ht)
  | @receive i budget system fs receives free hstep =>
    obtain ⟨-, hruntimes, gs, hbus⟩ := Runtimes.step_bus_bus hstep
    obtain ⟨-, -, henter, -⟩ := receive_aside hbus
    cases ht with
    | committed worker commits =>
      rw [State.worker, State.runtime, hruntimes] at worker
      exact .inl (.committed worker commits)
    | received serving worker told =>
      rw [State.worker, State.runtime, hruntimes] at worker
      rw [State.runtime, hruntimes] at serving
      exact .inl (.received serving worker told)
    | answered serving call => cases call
    | popping serving call consumer =>
      rw [State.bus, henter] at consumer
      cases consumer
  | bus background hbus hstep => exact bus_coming hs ho background hbus hstep ht

end

end Pipeline
end Telemetry
end VehicleCanCore

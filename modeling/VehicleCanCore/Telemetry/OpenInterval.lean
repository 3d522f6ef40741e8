import VehicleCanCore.CanBus.Wakeup
import VehicleCanCore.Telemetry.Delivery

/-!
# A worker serves inside an acquisition interval

From a successful start to the next stop the acquisition promises that wakeups agree
with frames. A runtime asks its worker to stop before it stops its source, and owns
the source alone: as long as nobody has asked a worker to stop, the interval that
was opened for it is open.
-/

namespace VehicleCanCore
namespace Telemetry

open Automata

/-! ## A worker that nobody has asked to stop -/

def Runtime.Serving (r : Runtime) : Prop := r.Working ∧ r.stopRequested = false

/-- An operation that has not asked the worker to stop yet, or is not going to. -/
def OperationPc.unasked : OperationPc → Bool
  | idle | finish _ | storeStopping .requestStop | beginDiagnostic _ _ .requestStop
  | refreshDiagnostic _ _ .requestStop _ | writeDiagnostic _ _ .requestStop | requestStop _ => true
  | _ => false

theorem OperationPc.not_waiting_of_unasked {pc : OperationPc} (h : pc.unasked = true) :
    pc.waiting = false := by
  cases pc <;> first | rfl | cases h

theorem OperationPc.not_waiting_of_launching {pc : OperationPc} (h : pc.launching = true) :
    pc.waiting = false := by
  cases pc <;> first | rfl | cases h

/-- A worker serves a source that has been started for it and not been stopped. -/
def Runtime.Unasked (r : Runtime) : Prop :=
  r.Serving → r.operation.unasked = true ∧ r.books.ownership = .successfulStart

theorem operationStep_unasked {platform : Platform} {r r' : Runtime} {input : OperationInput}
    {pc pc' : OperationPc} {es : List Event} (hpc : pc.unasked = true)
    (h : operationStep platform r input pc = some (r', pc', es)) :
    r'.stopRequested = true ∨ (pc'.unasked = true ∧ r'.books = r.books) := by
  cases pc with
  | idle => cases h
  | finish =>
    cases h
    exact .inr ⟨rfl, rfl⟩
  | requestStop =>
    cases h
    exact .inl rfl
  | storeStopping next | beginDiagnostic _ _ next | writeDiagnostic _ _ next =>
    cases next with
    | requestStop =>
      cases h
      exact .inr ⟨rfl, rfl⟩
    | _ => cases hpc
  | refreshDiagnostic lifecycle transport next pc =>
    cases next with
    | requestStop =>
      simp only [operationStep, Option.map_eq_some_iff, Prod.exists] at h
      obtain ⟨r'', pc'', hrefresh, heq⟩ := h
      obtain ⟨_, _, _, _, rfl⟩ := Runtime.refreshStep_eq hrefresh
      cases heq
      cases pc'' <;> exact .inr ⟨rfl, rfl⟩
    | _ => cases hpc
  | _ => cases hpc

theorem step_serving {platform : Platform} {r t : Runtime} {a : Action} {es : List Event}
    (hr : r.Sound platform) (h : step platform r a = some (t, es)) (ht : t.Serving) :
    r.Serving ∨ (r.operation = .createWorker ∧ t.operation = .finish .ok ∧ t.books = r.books) := by
  have hback (hworking : r.Working) (hstop : r.stopRequested = true → t.stopRequested = true) :
      r.Serving := by
    have hrunning := ht.2
    refine ⟨hworking, ?_⟩
    rw [← Bool.not_eq_true]
    intro hstopped
    simp [hstop hstopped] at hrunning
  cases step_cases h with
  | operation hop =>
    obtain ⟨q, hq, hrunning⟩ := ht.1
    rcases operationStep_staff hr.owned hop with ⟨hsame, hstop⟩ | ⟨-, hnone | ⟨hcreate, -, hpc⟩⟩
    · have hworking : r.Working := ⟨q, hsame ▸ hq, hrunning⟩
      exact .inl (hback hworking (hstop hworking))
    · rw [hnone] at hq
      cases hq
    · right
      rw [hcreate] at hop
      simp only [operationStep] at hop
      split_ifs at hop <;> cases hop
      · exact ⟨hcreate, rfl, rfl⟩
      · cases hpc
  | worker active hworker =>
    have heffect := workerStep_effect hworker
    exact .inl (hback ⟨_, active, heffect.running⟩ heffect.stopRequested)
  | @read now usable =>
    obtain ⟨transport, heq⟩ := Runtime.updateSilenceDiagnostic_eq r now
    rw [heq] at ht
    exact .inl ht
  | _ => exact .inl ht

theorem step_unasked {platform : Platform} {r t : Runtime} {a : Action} {es : List Event}
    (hr : r.Sound platform) (hunasked : r.Unasked) (h : step platform r a = some (t, es)) :
    t.Unasked := by
  intro hserving
  rcases step_serving hr h hserving with hbefore | ⟨hcreate, hpc, hbooks⟩
  · obtain ⟨hoperation, howner⟩ := hunasked hbefore
    have hsound := step_sound hr h
    cases step_cases h with
    | configure | refused => exact ⟨hoperation, howner⟩
    | start => exact absurd hserving.1 hsound.owned.1.2.not_working
    | stop free owned usable begins =>
      rcases begins with ⟨hclaimed, -⟩ | ⟨-, ⟨-, rfl⟩ | ⟨-, rfl⟩⟩
      · rw [howner] at hclaimed
        cases hclaimed
      all_goals exact ⟨rfl, howner⟩
    | destroy => exact ⟨rfl, howner⟩
    | operation hop =>
      rcases operationStep_unasked hoperation hop with hstop | ⟨hpc, hbooks⟩
      · have hrunning := hserving.2
        rw [hstop] at hrunning
        cases hrunning
      · exact ⟨hpc, by rw [hbooks]; exact howner⟩
    | worker active hworker =>
      have heffect := workerStep_effect hworker
      rw [heffect.operation, heffect.books]
      exact ⟨hoperation, howner⟩
    | @read now usable =>
      obtain ⟨transport, heq⟩ := Runtime.updateSilenceDiagnostic_eq r now
      rw [heq]
      exact ⟨hoperation, howner⟩
  · have howned := hr.owned
    rw [hcreate] at howned
    rw [hpc, hbooks]
    exact ⟨rfl, howned.1.1.ownership⟩

/-! ## The acquisition below a serving worker -/

/-- The last point of a successful start. -/
def ControlPc.Succeeded (pc : CanBus.ControlPc) : Prop := pc = .startSucceeded

namespace Runtimes

/-- The acquisition has been started for a runtime, which has not created its worker
yet, or whose worker serves. -/
def State.Served (s : State) : Prop :=
  s.Early ControlPc.Succeeded ∨ ∃ i, (s.runtimes i).Serving

theorem stopping_call {u : Sources.State} (hu : u.Sound)
    (hstopping : u.bus.control.phase = .stopping) :
    ∃ i op, op ≠ .start ∧ u.call = some (i, op) ∧ ∀ j, u.owns j = true → j = i := by
  have hin := hu.inCall
  cases hcall : u.call with
  | none =>
    rw [hcall] at hin
    simp [hin.1] at hstopping
  | some call =>
    obtain ⟨i, op⟩ := call
    rw [hcall] at hin
    cases op with
    | start =>
      obtain ⟨-, ⟨hentering, -⟩ | ⟨hstarting, -⟩⟩ := Sources.State.inCall_start hin
      · simp [hentering] at hstopping
      · simp [hstarting] at hstopping
    | stop | retryStop => exact ⟨i, _, by simp, rfl, hin.2.2⟩

section

variable {platform : Platform} {s t : State} {i : ℕ}

/-- Nobody stops the acquisition under a worker that has not been asked to stop. -/
theorem State.Served.not_stopping (hs : s.Agreed platform)
    (hunasked : ∀ i, (s.runtimes i).Unasked) (h : s.Served) :
    s.sources.bus.control.phase ≠ .stopping := by
  intro hstopping
  obtain ⟨i, op, hop, hcall, honly⟩ := stopping_call hs.sources hstopping
  have hturn := hs.exists_waiting hcall
  have hbusy {j : ℕ} (hj : (s.runtimes j).operation ≠ .idle)
      (hwaiting : (s.runtimes j).operation.waiting = false) : False := by
    have hcalm := hs.calm_of_turn ((hs.turn j).mpr hj) hwaiting
    simp [hcall] at hcalm
  rcases h with (hcontrol | ⟨j, ⟨hpc, hanswer⟩ | hlaunching⟩) | ⟨j, hserving⟩
  · rw [hcontrol] at hstopping
    cases hstopping
  · have hagrees := hs.agrees j
    rw [hpc] at hagrees
    rcases hagrees.2.2 with ⟨-, hnone, -⟩ | ⟨hnone, -⟩
    · simp [hanswer] at hnone
    · simp [hcall] at hnone
  · refine hbusy (fun hidle => ?_) (OperationPc.not_waiting_of_launching hlaunching)
    simp [hidle, OperationPc.launching] at hlaunching
  · obtain ⟨hoperation, howner⟩ := hunasked j hserving
    by_cases hidle : (s.runtimes j).operation = .idle
    · have hclaim := (hs.holds hidle).agree.mp (by simp [howner])
      obtain rfl := honly j hclaim
      exact (hs.turn j).mp hturn hidle
    · exact hbusy hidle (OperationPc.not_waiting_of_unasked hoperation)

theorem step_runtimes_unasked {a : Telemetry.Action} {es : List Event} (hs : s.Agreed platform)
    (hunasked : ∀ i, (s.runtimes i).Unasked)
    (h : step platform s (.runtime i a) = some (t, es)) (j : ℕ) : (t.runtimes j).Unasked := by
  obtain ⟨r, fs, hruntime, hruntimes⟩ := step_runtime_runtimes h
  rw [hruntimes]
  split_ifs with hj
  · exact Telemetry.step_unasked (hs.runtimes i) (hunasked i) hruntime
  · exact hunasked j

theorem served_of_runtime {a : Telemetry.Action} {es : List Event} (hs : s.Agreed platform)
    (h : step platform s (.runtime i a) = some (t, es)) (ht : t.Served) : s.Served := by
  cases step_cases h with
  | runtime permitted hruntime served =>
    rcases ht with hearly | ⟨j, hserving⟩
    · refine .inl (early_of_step ?_ hs hruntime served hearly)
      rintro _ rfl
      rfl
    · rw [State.setRuntime_runtimes] at hserving
      split_ifs at hserving with hj
      · rcases step_serving (hs.runtimes i) hruntime hserving with hbefore | ⟨hcreate, -⟩
        · exact .inr ⟨i, hbefore⟩
        · exact .inl (.inr ⟨i, .inr (by rw [hcreate]; rfl)⟩)
      · rw [State.serveAll_runtimes served] at hserving
        exact .inr ⟨j, hserving⟩

theorem served_of_bus {a : CanBus.Action} {es : List Event} (hs : s.Agreed platform)
    (h : step platform s (.bus a) = some (t, es)) (ht : t.Served) :
    s.Served ∨ t.sources.bus.control = .startSucceeded := by
  cases step_cases h with
  | @bus _ sources _ hsources =>
    rcases ht with hearly | hserving
    · have hbefore : ControlPc.Succeeded sources.bus.control ∨ s.Early ControlPc.Succeeded := by
        apply early_of_bus ?_ hs hsources hearly
        rfl
      rcases hbefore with hcontrol | hbefore
      · exact .inr hcontrol
      · exact .inl (.inl hbefore)
    · exact .inl (.inr hserving)

end

end Runtimes

namespace Pipeline

/-- `opening` is about a start in progress, `interval` about what it leads to. -/
structure State.Opened (s : State) : Prop where
  signalling : s.bus.Signalling
  unasked : ∀ i, (s.runtime i).Unasked
  opening : s.bus.control.phase = .starting → ∃ n h, CanBus.OpeningAccount n h s.bus
  interval : s.system.Served → ∃ n, s.bus.InInterval n

theorem starting_of_accepts {b : CanBus.State} {a : CanBus.Action} (hs : b.Sound)
    (hexclusive : b.TaskExclusive) (hidle : b.consumer = .idle) (h : b.accepts a = true) :
    b.Starting b.tasks.length := by
  cases a with
  | control ok =>
    simp only [CanBus.State.accepts] at h
    split at h
    · rename_i hcontrol
      have hsettled : b.shared.Settled := by
        have howned := hs.owned
        rwa [hcontrol] at howned
      refine ⟨hidle, rfl, fun q hq hlive => ?_, by rw [hcontrol]; trivial⟩
      obtain ⟨i, hi⟩ := List.getElem?_of_mem hq
      exact hsettled.owned (hexclusive.owned i ⟨q, hi, hlive⟩)
        (hsettled.stopped.mp (by simpa using h))
    · cases h
  | _ => cases h

theorem not_starting_of_begin {b b' : CanBus.State} {a : CanBus.Action} {es : List CanBus.Event}
    (ha : a.beginsCall = true) (h : CanBus.step b a = some (b', es)) :
    b'.control.phase ≠ .starting := by
  cases CanBus.step_cases h with
  | start | stop => simp [CanBus.ControlPc.phase]
  | startInvalid idle => simp [idle, CanBus.ControlPc.phase]
  | _ => cases ha

section

variable {platform : Platform} {sole : ℕ} {s t : State} {i : ℕ}

theorem runtime_opened {a : Telemetry.Action} {es : List Runtimes.Event}
    (hs : s.Piped platform sole) (ho : s.Opened) (ht : t.Piped platform sole)
    (hstep : Runtimes.step platform s.system (.runtime i a) = some (t.system, es)) : t.Opened := by
  have hagreed := hs.staffed.agreed
  have hunasked := Runtimes.step_runtimes_unasked hagreed ho.unasked hstep
  have hbefore (hserved : t.system.Served) : s.system.Served :=
    Runtimes.served_of_runtime hagreed hstep hserved
  rcases Runtimes.step_runtime_bus hagreed hstep with hsame | ⟨b, fs, hbegins, hbus⟩
  · have hsame : t.bus = s.bus := hsame
    refine ⟨hsame ▸ ho.signalling, hunasked, hsame ▸ ho.opening, fun hserved => ?_⟩
    rw [hsame]
    exact ho.interval (hbefore hserved)
  · refine ⟨ho.signalling.step hbus, hunasked,
      fun hstarting => absurd hstarting (not_starting_of_begin hbegins hbus), fun hserved => ?_⟩
    obtain ⟨n, hinterval⟩ := ho.interval (hbefore hserved)
    refine ⟨n, (CanBus.step_inInterval hinterval ?_ hbus).1⟩
    rintro rfl
    obtain ⟨-, -, -, hstopping, -⟩ := CanBus.step_stopCall hs.bus_sound hbus
    exact hserved.not_stopping ht.staffed.agreed hunasked hstopping

theorem bus_opened {a : CanBus.Action} {b : CanBus.State} {fs : List CanBus.Event}
    {es : List Runtimes.Event} (hs : s.Piped platform sole) (ho : s.Opened)
    (hreceive : ∀ timeoutMs, a = .receive timeoutMs → ∃ i, (s.runtime i).Working)
    (hbus : CanBus.step s.bus a = some (b, fs)) (hb : t.bus = b)
    (hstep : Runtimes.step platform s.system (.bus a) = some (t.system, es)) : t.Opened := by
  obtain ⟨hbackground, hruntimes, -⟩ := Runtimes.step_bus_bus hstep
  have hopening (hstarting : b.control.phase = .starting) :
      ∃ n h, CanBus.OpeningAccount n h b := by
    have hbegun : ∃ n h, CanBus.OpeningAccount n h s.bus := by
      rcases CanBus.step_accepts hs.bus_sound hbus hstarting with hbefore | haccepts
      · exact ho.opening hbefore
      · have hidle := hs.idle_of_vacant (vacant_of_accepts hs haccepts)
        have hbegun := starting_of_accepts hs.bus_sound hs.exclusive hidle haccepts
        exact ⟨_, [], .starting hbegun (by simp) (by simp)⟩
    obtain ⟨n, h, haccount⟩ := hbegun
    refine ⟨n, h ++ fs, CanBus.step_openingAccount ho.signalling haccount ⟨hbackground, ?_⟩ hbus⟩
    rintro timeoutMs rfl
    obtain ⟨i, hworking⟩ := hreceive timeoutMs rfl
    cases CanBus.step_cases hbus with
    | receive => exact hs.staffed.vacant (.inl hstarting) i hworking
  refine ⟨hb ▸ ho.signalling.step hbus, fun i => ?_, hb ▸ hopening, fun hserved => ?_⟩
  · rw [State.runtime, hruntimes]
    exact ho.unasked i
  · rcases Runtimes.served_of_bus hs.staffed.agreed hstep hserved with hbefore | hsucceeded
    · obtain ⟨n, hinterval⟩ := ho.interval hbefore
      refine ⟨n, hb ▸ (CanBus.step_inInterval hinterval ?_ hbus).1⟩
      rintro rfl
      cases hbackground
    · have hsucceeded : t.bus.control = .startSucceeded := hsucceeded
      rw [hb] at hsucceeded ⊢
      obtain ⟨n, h, haccount⟩ := hopening (by rw [hsucceeded]; rfl)
      cases haccount with
      | starting starting =>
        have hpoint := starting.point
        rw [hsucceeded] at hpoint
        exact hpoint.elim
      | opened interval => exact ⟨n, interval⟩
      | failed failing =>
        rw [hsucceeded] at failing
        exact failing.elim

theorem step_opened {a : Action} {es : List Event} (hs : s.Piped platform sole) (ho : s.Opened)
    (hC : Permitted platform sole s a) (h : step platform s a = some (t, es)) : t.Opened := by
  have ht := step_piped hs hC h
  cases step_cases h with
  | taken _ _ hstep | runtime _ hstep => exact runtime_opened hs ho ht hstep
  | @receive i budget system _ receives free hstep =>
    obtain ⟨-, -, fs, hbus⟩ := Runtimes.step_bus_bus hstep
    exact bus_opened hs ho (fun _ _ => ⟨i, _, receives, rfl⟩) hbus rfl hstep
  | bus background hbus hstep =>
    refine bus_opened hs ho ?_ hbus (bus_of_system hbus hstep).1 hstep
    rintro timeoutMs rfl
    cases background

end

theorem initial_opened (configuration : ℕ → CanBus.Configuration) :
    (initial configuration).Opened where
  signalling := CanBus.State.boot_signalling
  unasked i hserving := absurd hserving.1 Runtimes.not_working_init
  opening hstarting := by cases hstarting
  interval := by
    rintro ((hcontrol | ⟨i, ⟨hpc, -⟩ | hlaunching⟩) | ⟨i, hserving⟩)
    · cases hcontrol
    · cases hpc
    · cases hlaunching
    · exact absurd hserving.1 Runtimes.not_working_init

theorem run_opened {platform : Platform} {sole : ℕ} {configuration : ℕ → CanBus.Configuration}
    {s : State} {as : List Action} {es : List Event}
    (hC : (machine platform).Along (Permitted platform sole) (initial configuration) as)
    (hrun : (machine platform).run (initial configuration) as = some (s, es)) :
    s.Piped platform sole ∧ s.Opened :=
  (machine platform).run_preserves_along (I := fun s => s.Piped platform sole ∧ s.Opened)
    (fun _ _ _ _ hs hC hstep => ⟨step_piped hs.1 hC hstep, step_opened hs.1 hs.2 hC hstep⟩)
    ⟨initial_piped platform sole configuration, initial_opened configuration⟩ hC hrun

/-- In every permitted order of the operation in progress, workers, tasks and
observers: while some worker has not been asked to stop, tokens and frames agree, a
latched fault is told to every `receive` call, every frame is signalled, and no call
finds its token without a frame. -/
theorem serving_wakeups {platform : Platform} {sole : ℕ} {configuration : ℕ → CanBus.Configuration}
    {s : State} {as : List Action} {es : List Event}
    (hC : (machine platform).Along (Permitted platform sole) (initial configuration) as)
    (hrun : (machine platform).run (initial configuration) as = some (s, es))
    (hserving : ∃ i, (s.runtime i).Serving) :
    s.bus.WakeupsAgree ∧ ∀ a t fs, step platform s (.bus a) = some (t, fs) →
      (∀ ok, .bus (.frameSignalled ok) ∈ fs → ok = true) ∧
        ∀ frame, .bus (.received .driverFailure frame) ∉ fs := by
  obtain ⟨-, hopened⟩ := run_opened hC hrun
  obtain ⟨n, hinterval⟩ := hopened.interval (.inr hserving)
  refine ⟨hinterval.wakeupsAgree, fun a t fs hstep => ?_⟩
  cases step_cases hstep with
  | @bus _ b gs system hs background hbus hsystem =>
    have ha : a ≠ .stop := by
      rintro rfl
      obtain ⟨hbackground, -⟩ := Runtimes.step_bus_bus hsystem
      cases hbackground
    obtain ⟨-, hsignalled, hfailure⟩ := CanBus.step_inInterval hinterval ha hbus
    constructor
    · intro ok hok
      exact hsignalled ok (by simpa using hok)
    · intro frame hframe
      exact hfailure frame (by simpa using hframe)

theorem serving_wakeups_begin : ∃ s es,
    (machine .host).run (initial fun _ => {}) beginReceiveSchedule = some (s, es) ∧
      s.call.isSome = true ∧ s.bus.WakeupsAgree := by
  have hobserved : ((machine .host).run (initial fun _ => {}) beginReceiveSchedule).map (fun p =>
      (p.1.call.isSome, (p.1.worker 0).map WorkerPc.isFinished,
        (p.1.runtime 0).stopRequested)) = some (true, some false, false) := by decide +kernel
  have hC : (machine .host).Along (Permitted .host 0) (initial fun _ => {})
      beginReceiveSchedule := by
    decide +kernel
  obtain ⟨⟨s, es⟩, hrun, heq⟩ := Option.map_eq_some_iff.mp hobserved
  simp only [Prod.mk.injEq, Option.map_eq_some_iff] at heq
  obtain ⟨hcall, hworking, hstop⟩ := heq
  exact ⟨s, es, hrun, hcall, (serving_wakeups hC hrun ⟨0, hworking, hstop⟩).1⟩

end Pipeline
end Telemetry
end VehicleCanCore

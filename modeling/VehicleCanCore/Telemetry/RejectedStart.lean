import VehicleCanCore.Telemetry.Agreement

/-!
# Starts against another owner

A runtime that is started while another one owns the acquisition runs through its
cleanup of a partial start for some results and not for others. Either way its
source has nothing to clean up, and the runtime ends stopped.
-/

namespace VehicleCanCore
namespace Telemetry

open Automata

/-- The way of a rejected start back to its caller. -/
def AfterDiagnostic.rejecting : AfterDiagnostic → Bool
  | resetCache _ | finish _ => true
  | _ => false

def OperationPc.rejecting : OperationPc → Bool
  | idle | resetCache | resetProcessor | askRetry | callStart | awaitStart
  | cleanUp (.start _) | awaitCleanup (.start _) | resetCacheAtEnd _ | finish _ => true
  | storeFinal e => e.cleaned
  | beginDiagnostic _ _ next | refreshDiagnostic _ _ next _ | writeDiagnostic _ _ next =>
    next.rejecting
  | _ => false

theorem OperationPc.Owned.gone_of_rejecting {platform : Platform} {r : Runtime} {pc : OperationPc}
    (h : pc.Owned platform r) (hpc : pc.rejecting = true) (hstopped : r.lifecycle = .stopped) :
    r.Gone platform := by
  have hdiagnostic {next : AfterDiagnostic} (hnext : next.Owned platform r)
      (hrejecting : next.rejecting = true) : r.Gone platform := by
    cases next with
    | resetCache | finish => exact (Runtime.Resting.stopped hnext hstopped).2
    | cleanUp | requestStop => cases hrejecting
  cases pc with
  | idle => exact (h.1.stopped hstopped).2
  | resetCache | resetProcessor | askRetry | callStart | awaitStart => exact h.1.2
  | cleanUp caller =>
    cases caller with
    | start => exact h.2
    | stop | destroy => cases hpc
  | awaitCleanup caller =>
    cases caller with
    | start => exact h.2.2
    | stop | destroy => cases hpc
  | storeFinal e => exact (h.cleaned hpc).2
  | beginDiagnostic _ _ next | refreshDiagnostic _ _ next | writeDiagnostic _ _ next =>
    exact hdiagnostic h hpc
  | resetCacheAtEnd | finish => exact (Runtime.Resting.stopped h hstopped).2
  | _ => cases hpc

namespace Runtimes

section

variable {platform : Platform} {s t : State} {i : ℕ} {r r' : Runtime} {pc pc' : OperationPc}
  {es : List Telemetry.Event} {fs : List Sources.Event}

/-- The claims and the acquisition are left alone. -/
structure Undisturbed (s t : State) (fs : List Sources.Event) : Prop where
  claims : ∀ k, t.sources.owns k = s.sources.owns k
  noStop : ∀ k, .busStop k ∉ fs

theorem Undisturbed.refl (s : State) : Undisturbed s s [] := ⟨fun _ => rfl, by simp⟩

theorem callSource_rejected (hs : s.sources.Sound) (hfree : s.sources.call = none)
    (hanswer : s.answer = none) (hactive : s.sources.Active) (howns : s.sources.owns i = false)
    (h : s.callSource i .start = some (t, fs)) : Undisturbed s t fs := by
  obtain ⟨-, -, -, heffect⟩ := callSource_start hs hfree hanswer howns h
  rcases heffect with ⟨hopen, -, rfl⟩ | ⟨result, hanswered, -, rfl⟩
  · exact ⟨hopen.claims, by simp⟩
  · refine ⟨fun k => ?_, by simp⟩
    obtain ⟨hclaims, -⟩ := hanswered.settles
    rw [Bool.eq_iff_iff, hclaims]
    simp [hactive]

theorem callSource_unowned {op : Sources.Operation} (hop : op ≠ .start) (hs : s.sources.Sound)
    (hfree : s.sources.call = none) (hanswer : s.answer = none) (howns : s.sources.owns i = false)
    (h : s.callSource i op = some (t, fs)) : Undisturbed s t fs := by
  obtain ⟨-, -, -, heffect⟩ := callSource_stop hop hs hfree hanswer h
  rcases heffect with ⟨howner, -⟩ | ⟨-, hsame, -, rfl⟩
  · simp [howns] at howner
  · exact ⟨fun k => by rw [hsame], by simp⟩

theorem operationStep_rejecting {input : OperationInput} (hs : s.sources.Sound)
    (howned : pc.Owned platform r)
    (hcalm : pc.waiting = false → s.sources.call = none ∧ s.answer = none)
    (h : pc.Agrees s.sources s.answer i r.books) (hactive : pc.waiting = false → s.sources.Active)
    (howns : s.sources.owns i = false) (hpc : pc.rejecting = true)
    (hstopped : r.lifecycle = .stopped)
    (hop : operationStep platform r input pc = some (r', pc', es))
    (hserved : s.serveAll i (es.filterMap Event.sourceCall) = some (t, fs)) :
    Undisturbed s t fs ∧ r'.lifecycle = .stopped ∧ pc'.rejecting = true := by
  cases pc with
  | idle => cases hop
  | resetCache | resetProcessor | beginDiagnostic | resetCacheAtEnd | finish =>
    cases hop
    cases hserved
    exact ⟨.refl s, hstopped, hpc⟩
  | askRetry =>
    cases hop
    simp only [Event.sourceCall, List.filterMap_cons, List.filterMap_nil, State.serveAll_singleton,
      State.serve, Option.ite_none_right_eq_some, Option.some.injEq, Prod.mk.injEq] at hserved
    obtain ⟨-, rfl, rfl⟩ := hserved
    exact ⟨.refl s, hstopped, rfl⟩
  | callStart =>
    obtain ⟨hfree, hanswer⟩ := hcalm rfl
    cases hop
    simp only [Event.sourceCall, List.filterMap_cons, List.filterMap_nil,
      State.serveAll_singleton] at hserved
    exact ⟨callSource_rejected hs hfree hanswer (hactive rfl) howns hserved, hstopped, rfl⟩
  | awaitStart =>
    obtain ⟨-, -, hstarting⟩ := h
    simp only [operationStep] at hop
    split_ifs at hop with hok howned <;> cases hop <;>
      simp only [Event.sourceCall, List.filterMap_cons, List.filterMap_nil,
        State.serveAll_singleton, State.serve, Option.ite_none_right_eq_some, Option.some.injEq,
        Prod.mk.injEq] at hserved <;>
      obtain ⟨hanswer, rfl, rfl⟩ := hserved
    · have howner := (hstarting.taken hanswer).2.1 hok
      simp [howns] at howner
    all_goals exact ⟨⟨fun _ => rfl, by simp⟩, hstopped, rfl⟩
  | cleanUp caller =>
    cases caller with
    | start result =>
      obtain ⟨b, call, hbegin, -⟩ := howned.1.beginPartialCleanup_retry h
      obtain ⟨hfree, hanswer⟩ := hcalm rfl
      simp only [operationStep, hbegin] at hop
      cases hop
      simp only [Event.sourceCall, List.filterMap_cons, List.filterMap_nil,
        State.serveAll_singleton] at hserved
      obtain ⟨op, hop, heq⟩ := serve_cleanup (s := s) (i := i) call
      rw [heq] at hserved
      exact ⟨callSource_unowned hop hs hfree hanswer howns hserved, hstopped, rfl⟩
    | stop | destroy => cases hpc
  | awaitCleanup caller =>
    cases caller with
    | start result =>
      obtain ⟨-, hstopping⟩ := h
      cases hop
      simp only [Event.sourceCall, List.filterMap_cons, List.filterMap_nil,
        State.serveAll_singleton, State.serve, Option.ite_none_right_eq_some, Option.some.injEq,
        Prod.mk.injEq] at hserved
      obtain ⟨hanswer, rfl, rfl⟩ := hserved
      refine ⟨⟨fun _ => rfl, by simp⟩, hstopped, ?_⟩
      have hresolved : input.result = .ok ∨ input.result = .notRunning := by
        have hkept := (hstopping.taken hanswer).2
        simpa [howns, or_iff_not_imp_left] using hkept
      have hended : (r.books.endPartialCleanup input.result).2 = .ok := by
        simp [SourceBooks.endPartialCleanup, hresolved]
      show (afterPartialCleanup (r.books.endPartialCleanup input.result).2
        (.start result)).rejecting = true
      rw [hended]
      rfl
    | stop | destroy => cases hpc
  | storeFinal e =>
    have hcleaned : e.cleaned = true := hpc
    cases hop
    cases hserved
    refine ⟨.refl s, by simp [Ending.lifecycle, hcleaned], ?_⟩
    cases hresets : e.resetsCache <;> simp [OperationPc.rejecting, AfterDiagnostic.rejecting]
  | refreshDiagnostic lifecycle transport next pc =>
    simp only [operationStep, Option.map_eq_some_iff, Prod.exists] at hop
    obtain ⟨r'', pc'', hrefresh, heq⟩ := hop
    obtain ⟨_, _, _, _, rfl⟩ := Runtime.refreshStep_eq hrefresh
    cases heq
    cases hserved
    exact ⟨.refl s, hstopped, by cases pc'' <;> exact hpc⟩
  | writeDiagnostic lifecycle transport next =>
    cases hop
    cases hserved
    refine ⟨.refl s, hstopped, ?_⟩
    cases next with
    | resetCache | finish => rfl
    | cleanUp | requestStop => cases hpc
  | _ => cases hpc

end

/-! ## The whole start -/

/-- Lifecycle calls, the refused ones of a worker included. -/
def Action.beginsCall : Action → Bool
  | .runtime _ .start | .runtime _ (.stop _) => true
  | _ => false

/-- Runtime `i` was started in `s` and has got as far as `u`. -/
structure Rejected (platform : Platform) (i : ℕ) (s u : State) : Prop where
  agreed : u.Agreed platform
  turn : u.turn = none ∨ u.turn = some i
  claims : ∀ k, u.sources.owns k = s.sources.owns k
  others : ∀ k, k ≠ i → (u.runtimes k).books = (s.runtimes k).books
  stopped : (u.runtimes i).lifecycle = .stopped
  rejecting : (u.runtimes i).operation.rejecting = true

section

variable {platform : Platform} {s t u : State} {i j : ℕ}

theorem exclusive_of_free (hu : u.sources.Sound) (hfree : u.sources.call = none) :
    u.sources.Exclusive := by
  have hin := hu.inCall
  rw [hfree] at hin
  exact hin.2

theorem State.Agreed.owns_unique (h : s.Agreed platform) (hturn : s.turn = none)
    (howner : s.sources.owns j = true) (hne : i ≠ j) : s.sources.owns i = false := by
  by_contra howns
  exact hne ((exclusive_of_free h.sources (h.calm_of_free hturn).1).unique i j
    (by simpa using howns) howner)

/-- While somebody else holds the claim, the acquisition only refuses. -/
theorem step_bus_undisturbed {a : CanBus.Action} {v : Sources.State} {es : List Sources.Event}
    (hu : u.sources.Sound) (hturn : ∀ k op, u.sources.call = some (k, op) → k = i)
    (howner : u.sources.owns j = true) (howns : u.sources.owns i = false)
    (hstep : Sources.step u.sources (.bus a) = some (v, es)) :
    Undisturbed u (u.withSources v es) es := by
  cases hcall : u.sources.call with
  | none =>
    rcases (Sources.step_free hu hcall hstep).2 with ⟨k, op, heq, -⟩ | ⟨-, -, rfl, hclaims, -⟩
    · cases heq
    · exact ⟨hclaims, by simp⟩
  | some call =>
    obtain ⟨k, op⟩ := call
    obtain rfl := hturn k op hcall
    have hin := hu.inCall
    rw [hcall] at hin
    obtain rfl : op = .start := by
      cases op with
      | start => rfl
      | stop | retryStop =>
        obtain ⟨-, hself, -⟩ := hin
        simp [howns] at hself
    obtain ⟨-, ⟨hentering, hexclusive⟩ | ⟨-, hnone⟩⟩ := Sources.State.inCall_start hin
    · obtain ⟨before, hopen⟩ := Sources.exists_open hcall
      have hactive : before.Active :=
        (hopen.entering rfl hentering).mp (hexclusive.active.mp ⟨j, howner⟩)
      rcases (Sources.step_open hu hopen hstep).2 with ⟨hopen', rfl⟩ | ⟨result, hanswered, rfl⟩
      · exact ⟨fun l => (hopen'.claims l).trans (hopen.claims l).symm, by simp⟩
      · refine ⟨fun l => ?_, by simp⟩
        obtain ⟨hclaims, -⟩ := hanswered.settles
        rw [Bool.eq_iff_iff, hopen.claims]
        show v.owns l = true ↔ _
        rw [hclaims]
        simp [hactive]
    · simp [hnone] at howner

theorem Rejected.background {k : ℕ} {r : Runtime} (h : Rejected platform i s u)
    (ht : (u.setRuntime k r).Agreed platform)
    (hoperation : r.operation = (u.runtimes k).operation)
    (hbooks : r.books = (u.runtimes k).books)
    (hlifecycle : k = i → r.lifecycle = (u.runtimes k).lifecycle) :
    Rejected platform i s (u.setRuntime k r) := by
  refine ⟨ht, ?_, h.claims, fun l hl => ?_, ?_, ?_⟩
  · rw [h.agreed.setRuntime_turn hoperation]
    exact h.turn
  · rw [State.setRuntime_runtimes]
    split_ifs with hk
    · rw [hbooks, ← hk]
      exact h.others l hl
    · exact h.others l hl
  · rw [State.setRuntime_runtimes]
    split_ifs with hk
    · rw [hlifecycle hk.symm, ← hk]
      exact h.stopped
    · exact h.stopped
  · rw [State.setRuntime_runtimes]
    split_ifs with hk
    · rw [hoperation, ← hk]
      exact h.rejecting
    · exact h.rejecting

theorem Rejected.operate {r : Runtime} {input : OperationInput} {pc : OperationPc}
    {es : List Telemetry.Event} {fs : List Sources.Event} (h : Rejected platform i s u)
    (howner : u.sources.owns j = true) (howns : u.sources.owns i = false)
    (ht : (t.setRuntime i { r with operation := pc }).Agreed platform)
    (hop : operationStep platform (u.runtimes i) input (u.runtimes i).operation =
      some (r, pc, es))
    (hserved : u.serveAll i (es.filterMap Event.sourceCall) = some (t, fs)) :
    Rejected platform i s (t.setRuntime i { r with operation := pc }) ∧
      ∀ k, .busStop k ∉ fs := by
  have hturn : u.turn = some i := by
    rw [h.agreed.turn]
    intro hidle
    simp [hidle, operationStep] at hop
  have hcalm := h.agreed.calm_of_turn hturn
  have hactive : (u.runtimes i).operation.waiting = false → u.sources.Active := fun hwaiting =>
    (exclusive_of_free h.agreed.sources (hcalm hwaiting).1).active.mp ⟨j, howner⟩
  have hkept := operationStep_agrees h.agreed.sources (h.agreed.runtimes i).owned hcalm
    (h.agreed.agrees i) hop hserved
  obtain ⟨hundisturbed, hstopped, hrejecting⟩ :=
    operationStep_rejecting h.agreed.sources (h.agreed.runtimes i).owned hcalm (h.agreed.agrees i)
      hactive howns h.rejecting h.stopped hop hserved
  refine ⟨⟨ht, ?_, fun k => (hundisturbed.claims k).trans (h.claims k), fun k hk => ?_, ?_, ?_⟩,
    hundisturbed.noStop⟩
  · unfold State.setRuntime
    rw [hkept.turn, hturn]
    cases pc.isIdle <;> simp [Option.filter]
  · rw [State.setRuntime_runtimes, if_neg hk, hkept.runtimes]
    exact h.others k hk
  · rw [State.setRuntime_runtimes, if_pos rfl]
    exact hstopped
  · rw [State.setRuntime_runtimes, if_pos rfl]
    exact hrejecting

theorem step_rejected {a : Action} {es : List Event} (h : Rejected platform i s u)
    (howner : s.sources.owns j = true) (howns : s.sources.owns i = false)
    (ha : a.beginsCall = false) (hstep : step platform u a = some (t, es)) :
    Rejected platform i s t ∧ ∀ k, .source (.busStop k) ∉ es := by
  have ht := step_agreed h.agreed hstep
  have howner' : u.sources.owns j = true := (h.claims j).trans howner
  have howns' : u.sources.owns i = false := (h.claims i).trans howns
  cases step_cases hstep with
  | bus hbus =>
    have hturn (k : ℕ) (op : Sources.Operation) (hcall : u.sources.call = some (k, op)) :
        k = i := by
      have hk := h.agreed.exists_waiting hcall
      rcases h.turn with hnone | hsome
      · simp [hnone] at hk
      · rw [hsome] at hk
        exact (Option.some.inj hk).symm
    have hundisturbed := step_bus_undisturbed h.agreed.sources hturn howner' howns' hbus
    refine ⟨⟨ht, h.turn, fun k => (hundisturbed.claims k).trans (h.claims k), h.others, h.stopped,
      h.rejecting⟩, fun k => ?_⟩
    simpa using hundisturbed.noStop k
  | @runtime k a r fs v gs permitted hruntime served =>
    suffices hall : Rejected platform i s (v.setRuntime k r) ∧ ∀ l, .busStop l ∉ gs by
      refine ⟨hall.1, fun l => ?_⟩
      simpa using hall.2 l
    cases Telemetry.step_cases hruntime with
    | configure | refused =>
      cases served
      exact ⟨h.background ht rfl rfl fun _ => rfl, by simp⟩
    | start | stop => cases ha
    | destroy => cases permitted
    | @read now usable =>
      cases served
      obtain ⟨transport, heq⟩ := Runtime.updateSilenceDiagnostic_eq (u.runtimes k) now
      refine ⟨h.background ht ?_ ?_ fun _ => ?_, by simp⟩ <;> rw [heq]
    | worker active hworker =>
      have heffect := workerStep_effect hworker
      rw [workerStep_sourceCalls heffect] at served
      cases served
      refine ⟨h.background ht heffect.operation heffect.books ?_, by simp⟩
      rintro rfl
      have hgone := (h.agreed.runtimes k).owned.gone_of_rejecting h.rejecting h.stopped
      exact absurd hgone (Runtime.Gone.not_running active heffect.running)
    | operation hop =>
      have hk : k = i := by
        by_contra hne
        have hidle := h.agreed.idle h.turn hne
        simp [hidle, operationStep] at hop
      subst hk
      exact h.operate howner' howns' ht hop served

/-! ## Agreement and rejected starts over whole runs -/

/-- The first step of a start that is not refused out of hand, or refused for its
configuration. -/
theorem start_rejected {es : List Event} (hs : s.Agreed platform) (hturn : s.turn = none)
    (hstopped : (s.runtimes i).lifecycle = .stopped)
    (hstep : step platform s (.runtime i .start) = some (t, es)) :
    Rejected platform i s t ∧ ∀ k, .source (.busStop k) ∉ es := by
  have ht := step_agreed hs hstep
  have hidle : (s.runtimes i).operation = .idle := by
    by_contra hbusy
    have hsome := (hs.turn i).mpr hbusy
    simp [hturn] at hsome
  have hbegun : Rejected platform i s s :=
    ⟨hs, .inl hturn, fun _ => rfl, fun _ _ => rfl, hstopped, by rw [hidle]; rfl⟩
  cases step_cases hstep with
  | runtime permitted hruntime served =>
    cases Telemetry.step_cases hruntime with
    | refused =>
      cases served
      exact ⟨hbegun.background ht rfl rfl fun _ => rfl, by simp⟩
    | start =>
      cases served
      refine ⟨⟨ht, .inr rfl, fun _ => rfl, fun k hk => ?_, ?_, ?_⟩, by simp⟩
      · rw [State.setRuntime_runtimes, if_neg hk]
      · rw [State.setRuntime_runtimes, if_pos rfl]
        exact hstopped
      · rw [State.setRuntime_runtimes, if_pos rfl]
        rfl

theorem run_rejected {as : List Action} {es : List Event} (hs : s.Agreed platform)
    (hturn : s.turn = none) (hne : i ≠ j) (howner : s.sources.owns j = true)
    (hstopped : (s.runtimes i).lifecycle = .stopped) (has : ∀ a ∈ as, a.beginsCall = false)
    (hrun : (machine platform).run s (.runtime i .start :: as) = some (t, es)) :
    Rejected platform i s t ∧ ∀ k, .source (.busStop k) ∉ es := by
  have howns := hs.owns_unique hturn howner hne
  obtain ⟨u, fs, gs, hu, htail, rfl⟩ := (machine platform).run_cons.mp hrun
  refine (machine platform).run_invariant_along (C := fun _ a => a.beginsCall = false)
    (I := fun h u => Rejected platform i s u ∧ ∀ k, .source (.busStop k) ∉ h)
    (fun h u a t es hI ha hstep => ?_) (start_rejected hs hturn hstopped hu)
    (Machine.along_of_forall has) htail
  obtain ⟨ht, hes⟩ := step_rejected hI.1 howner howns ha hstep
  refine ⟨ht, fun k hk => ?_⟩
  rcases List.mem_append.mp hk with hk | hk
  · exact hI.2 k hk
  · exact hes k hk

end

def State.AtRest (s : State) : Prop := ∀ i, (s.runtimes i).operation = .idle

theorem State.Agreed.turn_of_atRest {platform : Platform} {s : State} (h : s.Agreed platform)
    (hrest : s.AtRest) : s.turn = none := by
  cases hturn : s.turn with
  | none => rfl
  | some i => exact absurd (hrest i) ((h.turn i).mp hturn)

theorem State.Agreed.atRest_of_turn {platform : Platform} {s : State} (h : s.Agreed platform)
    (hturn : s.turn = none) : s.AtRest := by
  intro i
  by_contra hbusy
  have hsome := (h.turn i).mpr hbusy
  simp [hturn] at hsome

/-- Over every serialized use of any number of runtimes: between its operations a
runtime owns its source exactly if the source holds the claim, and a stopped one
does not; an acquisition that is not stopped has exactly one owner, which is not
stopped; and a runtime started against another owner stays stopped, without any
`can_bus::stop()` and without a change for anybody else. -/
theorem three_layer_agreement {platform : Platform} {configuration : ℕ → CanBus.Configuration}
    {s : State} {as : List Action} {es : List Event}
    (hrun : (machine platform).run (initial configuration) as = some (s, es)) :
    (∀ i, (s.runtimes i).operation = .idle →
        ((s.runtimes i).books.ownership ≠ .none ↔ s.sources.owns i = true) ∧
        ((s.runtimes i).lifecycle = .stopped → s.sources.owns i = false)) ∧
      (s.AtRest → s.sources.Active → ∃ i, s.sources.owns i = true ∧
        (s.runtimes i).lifecycle ≠ .stopped ∧ ∀ j, s.sources.owns j = true → j = i) ∧
      (s.AtRest → ∀ i j, i ≠ j → s.sources.owns j = true → (s.runtimes i).lifecycle = .stopped →
        ∀ bs t fs, (∀ a ∈ bs, a.beginsCall = false) →
          (machine platform).run s (.runtime i .start :: bs) = some (t, fs) →
          (t.runtimes i).lifecycle = .stopped ∧ (∀ k, .source (.busStop k) ∉ fs) ∧
          (∀ k, t.sources.owns k = s.sources.owns k) ∧
          (∀ k, k ≠ i → (t.runtimes k).books = (s.runtimes k).books) ∧
          (t.AtRest → t.sources.Active)) := by
  have hs : s.Agreed platform := reachable_agreed ⟨as, es, hrun⟩
  have hunowned (i : ℕ) (hidle : (s.runtimes i).operation = .idle)
      (hstopped : (s.runtimes i).lifecycle = .stopped) : s.sources.owns i = false := by
    have hnone := (((hs.runtimes i).resting hidle).stopped hstopped).1.ownership
    have hagree := (hs.holds hidle).agree
    simpa [hnone] using hagree
  have hexclusive {u : State} (hu : u.Agreed platform) (hrest : u.AtRest) : u.sources.Exclusive :=
    exclusive_of_free hu.sources (hu.calm_of_free (hu.turn_of_atRest hrest)).1
  refine ⟨fun i hidle => ⟨(hs.holds hidle).agree, hunowned i hidle⟩, fun hrest hactive => ?_,
    fun hrest i j hne howner hstopped bs t fs hbs ht => ?_⟩
  · obtain ⟨i, howner⟩ := (hexclusive hs hrest).active.mpr hactive
    refine ⟨i, howner, fun hstopped => ?_, fun j hj => (hexclusive hs hrest).unique j i hj howner⟩
    simp [hunowned i (hrest i) hstopped] at howner
  · obtain ⟨hrejected, hnoStop⟩ :=
      run_rejected hs (hs.turn_of_atRest hrest) hne howner hstopped hbs ht
    refine ⟨hrejected.stopped, hnoStop, hrejected.claims, hrejected.others, fun hrest' => ?_⟩
    exact (hexclusive hrejected.agreed hrest').active.mp ⟨j, (hrejected.claims j).trans howner⟩

/-- Runtime 0 starts, and its receive task faults. -/
def faultedOwnerSchedule : List Action :=
  let operation (n : ℕ) : List Action := List.replicate n (.runtime 0 (.operation {}))
  [.runtime 0 .start] ++ operation 4 ++ List.replicate 37 (.bus (.control true)) ++
    operation 11 ++ List.replicate 9 (.bus (.task 0 { received := .error }))

/-- The start of runtime 1 that follows: its source answers that the acquisition is
faulted, and to the cleanup that there is nothing to stop. -/
def rejectedStartSchedule : List Action :=
  let operation (n : ℕ) : List Action := List.replicate n (.runtime 1 (.operation {}))
  operation 4 ++ List.replicate 2 (.bus (.control true)) ++
    [.runtime 1 (.operation { result := .faulted })] ++ operation 1 ++
    [.runtime 1 (.operation { result := .notRunning })] ++ operation 9

theorem three_layer_agreement_rejected_start : ∃ s es t fs,
    (machine .host).run (initial fun _ => {}) faultedOwnerSchedule = some (s, es) ∧
      (machine .host).run s (.runtime 1 .start :: rejectedStartSchedule) = some (t, fs) ∧
      .runtime 1 (.returned .faulted) ∈ fs ∧ (t.runtimes 1).lifecycle = .stopped ∧
      (∀ k, .source (.busStop k) ∉ fs) ∧ t.sources.owns 0 = true := by
  have hobserved : ((machine .host).run (initial fun _ => {}) faultedOwnerSchedule).map (fun p =>
      (p.1.turn, p.1.sources.owns 0, (p.1.runtimes 1).lifecycle,
        ((machine .host).run p.1 (.runtime 1 .start :: rejectedStartSchedule)).map fun q =>
          decide (.runtime 1 (.returned .faulted) ∈ q.2))) =
      some (none, true, .stopped, some true) := by decide +kernel
  have hcalls : ∀ a ∈ rejectedStartSchedule, a.beginsCall = false := by
    decide +kernel
  obtain ⟨⟨s, es⟩, hrun, heq⟩ := Option.map_eq_some_iff.mp hobserved
  simp only [Prod.mk.injEq, Option.map_eq_some_iff, decide_eq_true_eq] at heq
  obtain ⟨hturn, howner, hstopped, ⟨t, fs⟩, hstart, hreturned⟩ := heq
  have hrest := (reachable_agreed ⟨_, _, hrun⟩).atRest_of_turn hturn
  obtain ⟨-, -, hrejected⟩ := three_layer_agreement hrun
  obtain ⟨hended, hnoStop, hclaims, -, -⟩ :=
    hrejected hrest 1 0 (by decide) howner hstopped _ t fs hcalls hstart
  exact ⟨s, es, t, fs, hrun, hstart, hreturned, hended, hnoStop, (hclaims 0).trans howner⟩

end Runtimes
end Telemetry
end VehicleCanCore

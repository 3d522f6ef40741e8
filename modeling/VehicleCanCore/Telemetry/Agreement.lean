import VehicleCanCore.Telemetry.Runtimes

/-!
# Agreement of the three layers

The runtime's ownership fields, the source's claim and the acquisition's lifecycle
are kept separately. `OperationPc.Agrees` says how the first two compare at each
program point of a lifecycle operation; the exclusiveness of the claim compares
the last two.
-/

namespace VehicleCanCore
namespace Telemetry

open Automata

def OperationPc.waiting : OperationPc → Bool
  | awaitStart | awaitStop _ | awaitCleanup _ => true
  | _ => false

/-- The runtime owns its source exactly if the source holds the claim, and can
then retry its cleanup. -/
structure SourceBooks.Holds (b : SourceBooks) (owns : Bool) : Prop where
  agree : b.ownership ≠ .none ↔ owns = true
  retry : b.ownership ≠ .none → b.stopRetrySupported = true

namespace Runtimes

/-- The source of runtime `i` is about to be started, or starting, or has answered. -/
def Starting (u : Sources.State) (answer : Option ResultCode) (i : ℕ) : Prop :=
  (u.call = some (i, .start) ∧ answer = none ∧ u.owns i = false) ∨
    (u.call = none ∧ ∃ r, answer = some r ∧ (r = .ok → u.owns i = true) ∧
      (r = .alreadyRunning ∨ r = .invalidConfiguration → u.owns i = false))

/-- The source of runtime `i` cleans up, or has answered. -/
def Stopping (u : Sources.State) (answer : Option ResultCode) (i : ℕ) : Prop :=
  ((∃ op, op ≠ .start ∧ u.call = some (i, op)) ∧ answer = none) ∨
    (u.call = none ∧ ∃ r, answer = some r ∧ (u.owns i = true ↔ r ≠ .ok ∧ r ≠ .notRunning))

end Runtimes

open Runtimes (Starting Stopping)

/-- After a rejected start the runtime cleans up in any case; its source knows
whether there is something to clean up. -/
def OperationPc.Agrees (u : Sources.State) (answer : Option ResultCode) (i : ℕ) (b : SourceBooks) :
    OperationPc → Prop
  | callStart => b.ownership = .none ∧ b.stopRetrySupported = true ∧ u.owns i = false
  | awaitStart => b.ownership = .none ∧ b.stopRetrySupported = true ∧ Starting u answer i
  | cleanUp (.start _) => b.stopRetrySupported = true
  | awaitStop _ | awaitCleanup _ => b.stopRetrySupported = true ∧ Stopping u answer i
  | _ => b.Holds (u.owns i)

def OperationPc.plain : OperationPc → Bool
  | callStart | awaitStart | cleanUp (.start _) | awaitStop _ | awaitCleanup _ => false
  | _ => true

section

variable {u : Sources.State} {answer : Option ResultCode} {i : ℕ} {b : SourceBooks}
  {pc : OperationPc}

theorem OperationPc.agrees_of_plain (hpc : pc.plain = true) :
    pc.Agrees u answer i b ↔ b.Holds (u.owns i) := by
  cases pc with
  | callStart | awaitStart | awaitStop | awaitCleanup => cases hpc
  | cleanUp caller =>
    cases caller with
    | start => cases hpc
    | stop | destroy => exact Iff.rfl
  | _ => exact Iff.rfl

theorem OperationPc.not_waiting_of_plain (hpc : pc.plain = true) : pc.waiting = false := by
  cases pc with
  | awaitStart | awaitStop | awaitCleanup => cases hpc
  | _ => rfl

theorem OperationPc.AfterCleanup.plain (h : pc.AfterCleanup) : pc.plain = true := by
  cases h <;> rfl

/-! ## The cleanup helpers over a source with retries -/

theorem SourceBooks.Retained.beginPartialCleanup_retry (h : b.Retained)
    (hretry : b.stopRetrySupported = true) : ∃ b' call, b.beginPartialCleanup = .ok (b', call) ∧
      b'.stopRetrySupported = true := by
  unfold SourceBooks.beginPartialCleanup
  simp only [ne_eq, h.ownership, h.started, hretry, not_true_eq_false, decide_false, Bool.not_true,
    Bool.or_self, Bool.and_false, Bool.false_eq_true, if_false, Bool.true_and]
  split_ifs <;> exact ⟨_, _, rfl, rfl⟩

theorem SourceBooks.Released.holds (h : b.Released) {owns : Bool} (howns : owns = false) :
    b.Holds owns :=
  ⟨by simp [h.ownership, howns], fun hnot => absurd h.ownership hnot⟩

theorem SourceBooks.Started.endSourceStop_holds (h : b.Started)
    (hretry : b.stopRetrySupported = true) {result : ResultCode} {owns : Bool}
    (howns : owns = true ↔ result ≠ .ok ∧ result ≠ .notRunning) :
    (b.endSourceStop result).1.Holds owns := by
  have houtcome := h.endSourceStop result
  generalize b.endSourceStop result = ended at houtcome ⊢
  obtain ⟨b', cleanup⟩ := ended
  cases houtcome with
  | released released resolved =>
    apply released.holds
    rcases resolved with rfl | ⟨rfl, -⟩ <;> simpa using howns
  | handedOff released oneShot => simp [hretry] at oneShot
  | retained owned called retry same unresolved =>
    have hownership : b'.ownership = .successfulStart := owned.ownership
    exact ⟨iff_of_true (by simp [hownership]) (howns.mpr unresolved), fun _ => same.trans hretry⟩

theorem SourceBooks.Partial.endPartialCleanup_holds (h : b.Partial) (hcalled : b.stopCalled = true)
    (hretry : b.stopRetrySupported = true) {result : ResultCode} {owns : Bool}
    (howns : owns = true ↔ result ≠ .ok ∧ result ≠ .notRunning) :
    (b.endPartialCleanup result).1.Holds owns := by
  have houtcome := h.endPartialCleanup hcalled result
  generalize b.endPartialCleanup result = ended at houtcome ⊢
  obtain ⟨b', cleanup⟩ := ended
  cases houtcome with
  | released released resolved =>
    apply released.holds
    rcases resolved with rfl | rfl <;> simpa using howns
  | retained owned called attempts same unresolved =>
    have hownership : b'.ownership = .partialStart := owned.ownership
    exact ⟨iff_of_true (by simp [hownership]) (howns.mpr unresolved), fun _ => same.trans hretry⟩

end

/-! ## One step of an operation -/

namespace Runtimes

/-- What the step of an operation of runtime `i` leaves for its new ownership
fields `b` and program point `pc`. -/
structure Kept (s t : State) (i : ℕ) (b : SourceBooks) (pc : OperationPc) : Prop where
  sound : t.sources.Sound
  runtimes : t.runtimes = s.runtimes
  turn : t.turn = s.turn
  others : ∀ j, j ≠ i → t.sources.owns j = s.sources.owns j
  calm : pc.waiting = false → t.sources.call = none ∧ t.answer = none
  agrees : pc.Agrees t.sources t.answer i b

section

variable {s t : State} {i : ℕ} {b : SourceBooks} {pc : OperationPc} {fs : List Sources.Event}

theorem Kept.of_plain (hs : s.sources.Sound) (hcalm : s.sources.call = none ∧ s.answer = none)
    (hpc : pc.plain = true) (hholds : b.Holds (s.sources.owns i)) : Kept s s i b pc :=
  ⟨hs, rfl, rfl, fun _ _ => rfl, fun _ => hcalm, (OperationPc.agrees_of_plain hpc).mpr hholds⟩

theorem Kept.of_answered (hs : s.sources.Sound) (hcall : s.sources.call = none)
    (hagrees : pc.Agrees s.sources none i b) : Kept s { s with answer := none } i b pc :=
  ⟨hs, rfl, rfl, fun _ _ => rfl, fun _ => ⟨hcall, rfl⟩, hagrees⟩

theorem Kept.of_start (hs : s.sources.Sound) (hcalm : s.sources.call = none ∧ s.answer = none)
    (hownership : b.ownership = .none) (hretry : b.stopRetrySupported = true)
    (howns : s.sources.owns i = false) (h : s.callSource i .start = some (t, fs)) :
    Kept s t i b .awaitStart := by
  obtain ⟨ht, hruntimes, hturn, heffect⟩ := callSource_start hs hcalm.1 hcalm.2 howns h
  rcases heffect with ⟨hopen, hanswer, -⟩ | ⟨r, hanswered, hanswer, -⟩
  · have hstarting : Starting t.sources t.answer i :=
      .inl ⟨hopen.call, hanswer, by rw [hopen.claims, howns]⟩
    exact ⟨ht, hruntimes, hturn, fun j _ => hopen.claims j, by simp [OperationPc.waiting],
      ⟨hownership, hretry, hstarting⟩⟩
  · obtain ⟨-, hok, hrejected⟩ := hanswered.settles
    have hstarting : Starting t.sources t.answer i :=
      .inr ⟨hanswered.call, r, hanswer, hok, fun hr => by rw [hrejected hr, howns]⟩
    exact ⟨ht, hruntimes, hturn, fun j hj => settles_others hanswered.settles hj,
      by simp [OperationPc.waiting], ⟨hownership, hretry, hstarting⟩⟩

theorem stopping_of_call {op : Sources.Operation} (hop : op ≠ .start) (hs : s.sources.Sound)
    (hcalm : s.sources.call = none ∧ s.answer = none) (h : s.callSource i op = some (t, fs)) :
    t.sources.Sound ∧ t.runtimes = s.runtimes ∧ t.turn = s.turn ∧
      (∀ j, j ≠ i → t.sources.owns j = s.sources.owns j) ∧ Stopping t.sources t.answer i := by
  obtain ⟨ht, hruntimes, hturn, heffect⟩ := callSource_stop hop hs hcalm.1 hcalm.2 h
  refine ⟨ht, hruntimes, hturn, ?_⟩
  rcases heffect with ⟨-, hopen, hanswer, -⟩ | ⟨hnone, hsame, hanswer, -⟩
  · exact ⟨fun j _ => hopen.claims j, .inl ⟨⟨op, hop, hopen.call⟩, hanswer⟩⟩
  · refine ⟨fun j _ => by rw [hsame], .inr ⟨by rw [hsame, hcalm.1], _, hanswer, ?_⟩⟩
    simp [hsame, hnone]

theorem serve_cleanup (call : StopCall) :
    ∃ op, op ≠ .start ∧ s.serve i (.cleanup call) = s.callSource i op := by
  cases call with
  | stop => exact ⟨.stop, by simp, rfl⟩
  | retryStop => exact ⟨.retryStop, by simp, rfl⟩

theorem Kept.of_cleanup (hs : s.sources.Sound) (hcalm : s.sources.call = none ∧ s.answer = none)
    (hretry : b.stopRetrySupported = true) (hpc : pc.Agrees t.sources t.answer i b ↔
      b.stopRetrySupported = true ∧ Stopping t.sources t.answer i) (hwaiting : pc.waiting = true)
    {call : StopCall} (h : s.serve i (.cleanup call) = some (t, fs)) : Kept s t i b pc := by
  obtain ⟨op, hop, heq⟩ := serve_cleanup (s := s) (i := i) call
  rw [heq] at h
  obtain ⟨ht, hruntimes, hturn, hothers, hstopping⟩ := stopping_of_call hop hs hcalm h
  exact ⟨ht, hruntimes, hturn, hothers, by simp [hwaiting], hpc.mpr ⟨hretry, hstopping⟩⟩

end

theorem Starting.taken {u : Sources.State} {answer : Option ResultCode} {i : ℕ}
    {result : ResultCode} (h : Starting u answer i) (hanswer : answer = some result) :
    u.call = none ∧ (result = .ok → u.owns i = true) ∧
      (result = .alreadyRunning ∨ result = .invalidConfiguration → u.owns i = false) := by
  rcases h with ⟨-, hnone, -⟩ | ⟨hcall, result', hresult, hrest⟩
  · simp [hnone] at hanswer
  · obtain rfl : result' = result := by simpa [hresult] using hanswer
    exact ⟨hcall, hrest⟩

theorem Stopping.taken {u : Sources.State} {answer : Option ResultCode} {i : ℕ}
    {result : ResultCode} (h : Stopping u answer i) (hanswer : answer = some result) :
    u.call = none ∧ (u.owns i = true ↔ result ≠ .ok ∧ result ≠ .notRunning) := by
  rcases h with ⟨-, hnone⟩ | ⟨hcall, result', hresult, hrest⟩
  · simp [hnone] at hanswer
  · obtain rfl : result' = result := by simpa [hresult] using hanswer
    exact ⟨hcall, hrest⟩

theorem operationStep_agrees {platform : Platform} {s t : State} {i : ℕ} {r r' : Runtime}
    {input : OperationInput} {pc pc' : OperationPc} {es : List Telemetry.Event}
    {fs : List Sources.Event} (hs : s.sources.Sound) (howned : pc.Owned platform r)
    (hcalm : pc.waiting = false → s.sources.call = none ∧ s.answer = none)
    (h : pc.Agrees s.sources s.answer i r.books)
    (hop : operationStep platform r input pc = some (r', pc', es))
    (hserved : s.serveAll i (es.filterMap Event.sourceCall) = some (t, fs)) :
    Kept s t i r'.books pc' := by
  cases pc with
  | idle | destroyed => cases hop
  | resetCache | resetProcessor | clearStopRequested | setWorkerActive | resetDiagnostics
  | storeRunning | clearWorkerActive | storeStopping | storeFinal | beginDiagnostic
  | resetCacheAtEnd | finish =>
    cases hop
    cases hserved
    exact .of_plain hs (hcalm rfl) rfl h
  | askRetry =>
    have hreleased := howned.1.1
    cases hop
    simp only [Event.sourceCall, List.filterMap_cons, List.filterMap_nil, State.serveAll_singleton,
      State.serve, Option.ite_none_right_eq_some, Option.some.injEq, Prod.mk.injEq] at hserved
    obtain ⟨hretry, rfl, -⟩ := hserved
    refine ⟨hs, rfl, rfl, fun _ _ => rfl, fun _ => hcalm rfl, ⟨hreleased.ownership, hretry, ?_⟩⟩
    have hagree := h.agree
    simpa [hreleased.ownership] using hagree
  | callStart =>
    obtain ⟨hownership, hretry, howns⟩ := h
    cases hop
    simp only [Event.sourceCall, List.filterMap_cons, List.filterMap_nil,
      State.serveAll_singleton] at hserved
    exact .of_start hs (hcalm rfl) hownership hretry howns hserved
  | awaitStart =>
    obtain ⟨hownership, hretry, hstarting⟩ := h
    simp only [operationStep] at hop
    split_ifs at hop with hok howned <;> cases hop <;>
      simp only [Event.sourceCall, List.filterMap_cons, List.filterMap_nil,
        State.serveAll_singleton, State.serve, Option.ite_none_right_eq_some, Option.some.injEq,
        Prod.mk.injEq] at hserved <;>
      obtain ⟨hanswer, rfl, -⟩ := hserved
    all_goals
      obtain ⟨hcall, hstarted, hrejected⟩ := hstarting.taken hanswer
      apply Kept.of_answered hs hcall
    · exact ⟨iff_of_true (by simp) (hstarted hok), fun _ => hretry⟩
    · exact hretry
    all_goals
      have hnone : s.sources.owns i = false := by
        apply hrejected
        simpa [startFailureMayOwnSource, or_iff_not_imp_left] using howned
      exact ⟨by simp [hownership, hnone], fun hnot => absurd hownership hnot⟩
  | refresh pc | refreshDiagnostic _ _ _ pc =>
    simp only [operationStep, Option.map_eq_some_iff, Prod.exists] at hop
    obtain ⟨r'', pc'', hrefresh, heq⟩ := hop
    obtain ⟨_, _, _, _, rfl⟩ := Runtime.refreshStep_eq hrefresh
    cases heq
    cases hserved
    exact .of_plain hs (hcalm rfl) (by cases pc'' <;> rfl) h
  | createWorker =>
    simp only [operationStep] at hop
    split_ifs at hop <;> cases hop <;> cases hserved <;> exact .of_plain hs (hcalm rfl) rfl h
  | awaitWorker | joinWorker =>
    have hholds : (r.join platform).books.Holds (s.sources.owns i) := by
      rw [Runtime.join_books]
      exact h
    simp only [operationStep] at hop
    split_ifs at hop <;> cases hop <;> cases hserved
    all_goals first
      | exact .of_plain hs (hcalm rfl) rfl hholds
      | exact .of_plain hs (hcalm rfl) rfl h
  | requestStop caller =>
    cases hop
    cases hserved
    refine .of_plain hs (hcalm rfl) ?_ h
    cases caller with
    | start | stop => rfl
    | destroy final => exact destroyBy_of (P := fun pc => pc.plain = true) rfl rfl rfl
  | attemptStop caller =>
    have hwhole : r.books.Whole := howned.1
    simp only [operationStep] at hop
    rcases hwhole with hreleased | hsuccessful
    · rw [hreleased.beginSourceStop] at hop
      cases hop
      cases hserved
      exact .of_plain hs (hcalm rfl) (afterSourceStop_afterCleanup _ _).plain h
    · have hretry := h.retry (by simp [hsuccessful.ownership])
      rw [hsuccessful.beginSourceStop] at hop
      cases hop
      simp only [Event.sourceCall, List.filterMap_cons, List.filterMap_nil,
        State.serveAll_singleton] at hserved
      exact .of_cleanup hs (hcalm rfl) hretry Iff.rfl rfl hserved
  | cleanUp caller =>
    have hretained : r.books.Retained := howned.1
    have hretry : r.books.stopRetrySupported = true := by
      cases caller with
      | start => exact h
      | stop | destroy => exact h.retry (by simp [hretained.ownership])
    obtain ⟨b, call, hbegin, hretry'⟩ := hretained.beginPartialCleanup_retry hretry
    simp only [operationStep, hbegin] at hop
    cases hop
    simp only [Event.sourceCall, List.filterMap_cons, List.filterMap_nil,
      State.serveAll_singleton] at hserved
    have hcalm' : s.sources.call = none ∧ s.answer = none := hcalm rfl
    exact .of_cleanup hs hcalm' hretry' Iff.rfl rfl hserved
  | awaitStop caller =>
    obtain ⟨hretry, hstopping⟩ := h
    cases hop
    simp only [Event.sourceCall, List.filterMap_cons, List.filterMap_nil, State.serveAll_singleton,
      State.serve, Option.ite_none_right_eq_some, Option.some.injEq, Prod.mk.injEq] at hserved
    obtain ⟨hanswer, rfl, -⟩ := hserved
    obtain ⟨hcall, howns⟩ := hstopping.taken hanswer
    apply Kept.of_answered hs hcall
    rw [OperationPc.agrees_of_plain (afterSourceStop_afterCleanup _ _).plain]
    exact howned.1.endSourceStop_holds hretry howns
  | awaitCleanup caller =>
    obtain ⟨hretry, hstopping⟩ := h
    cases hop
    simp only [Event.sourceCall, List.filterMap_cons, List.filterMap_nil, State.serveAll_singleton,
      State.serve, Option.ite_none_right_eq_some, Option.some.injEq, Prod.mk.injEq] at hserved
    obtain ⟨hanswer, rfl, -⟩ := hserved
    obtain ⟨hcall, howns⟩ := hstopping.taken hanswer
    apply Kept.of_answered hs hcall
    rw [OperationPc.agrees_of_plain (afterPartialCleanup_afterCleanup _ _).plain]
    exact howned.1.endPartialCleanup_holds howned.2.1 hretry howns
  | writeDiagnostic lifecycle transport next =>
    cases hop
    cases hserved
    exact .of_plain hs (hcalm rfl) (by cases next <;> rfl) h
  | retryCleanup =>
    cases hop
    cases hserved
    refine .of_plain hs (hcalm rfl) ?_ h
    split_ifs
    · exact destroyBy_of (P := fun pc => pc.plain = true) rfl rfl rfl
    · rfl

/-! ## The invariant of all layers -/

/-- At most one runtime is inside a lifecycle operation, and only that one may be
inside a call on its source. -/
structure State.Agreed (platform : Platform) (s : State) : Prop where
  sources : s.sources.Sound
  runtimes : ∀ i, (s.runtimes i).Sound platform
  turn : ∀ i, s.turn = some i ↔ (s.runtimes i).operation ≠ .idle
  calm : (∀ i, s.turn = some i → (s.runtimes i).operation.waiting = false) →
    s.sources.call = none ∧ s.answer = none
  agrees : ∀ i, (s.runtimes i).operation.Agrees s.sources s.answer i (s.runtimes i).books

namespace State.Agreed

variable {platform : Platform} {s t : State} {i : ℕ} {r : Runtime}

theorem idle (h : s.Agreed platform) {j : ℕ} (hturn : s.turn = none ∨ s.turn = some i)
    (hj : j ≠ i) : (s.runtimes j).operation = .idle := by
  by_contra hbusy
  have hother := (h.turn j).mpr hbusy
  rcases hturn with hnone | hsome
  · simp [hnone] at hother
  · rw [hsome] at hother
    exact hj (Option.some.inj hother).symm

theorem calm_of_turn (h : s.Agreed platform) (hturn : s.turn = some i)
    (hwaiting : (s.runtimes i).operation.waiting = false) :
    s.sources.call = none ∧ s.answer = none := by
  apply h.calm
  intro j hj
  rw [hturn] at hj
  cases hj
  exact hwaiting

theorem calm_of_free (h : s.Agreed platform) (hturn : s.turn = none) :
    s.sources.call = none ∧ s.answer = none := by
  apply h.calm
  intro j hj
  simp [hturn] at hj

/-- Between operations the two layers agree, whatever the others do. -/
theorem holds (h : s.Agreed platform) (hidle : (s.runtimes i).operation = .idle) :
    (s.runtimes i).books.Holds (s.sources.owns i) := by
  have hagrees := h.agrees i
  rw [hidle] at hagrees
  exact hagrees

theorem congr_idle {u v : Sources.State} {answer answer' : Option ResultCode} {j : ℕ}
    {b : SourceBooks} (h : OperationPc.idle.Agrees u answer j b) (hclaims : v.owns j = u.owns j) :
    OperationPc.idle.Agrees v answer' j b := by
  have hholds : b.Holds (u.owns j) := h
  rw [← hclaims] at hholds
  exact hholds

theorem setRuntime_turn (h : s.Agreed platform)
    (hoperation : r.operation = (s.runtimes i).operation) : (s.setRuntime i r).turn = s.turn := by
  unfold State.setRuntime
  cases hidle : r.operation.isIdle with
  | true =>
    have hnot : s.turn ≠ some i := by
      rw [ne_eq, h.turn, ← hoperation, OperationPc.isIdle_iff.mp hidle]
      simp
    cases hsturn : s.turn with
    | none => simp
    | some j => simp_all
  | false =>
    have hbusy : (s.runtimes i).operation ≠ .idle := by
      rw [← hoperation]
      intro heq
      simp [heq, OperationPc.isIdle] at hidle
    simp [(h.turn i).mpr hbusy]

theorem background (h : s.Agreed platform) (hr : r.Sound platform)
    (hoperation : r.operation = (s.runtimes i).operation)
    (hbooks : r.books = (s.runtimes i).books) : (s.setRuntime i r).Agreed platform := by
  have hturn := h.setRuntime_turn hoperation
  have hruntime (j : ℕ) : ((s.setRuntime i r).runtimes j).operation = (s.runtimes j).operation ∧
      ((s.setRuntime i r).runtimes j).books = (s.runtimes j).books := by
    rw [State.setRuntime_runtimes]
    split_ifs with hj
    · rw [hj]
      exact ⟨hoperation, hbooks⟩
    · exact ⟨rfl, rfl⟩
  refine ⟨h.sources, fun j => ?_, fun j => ?_, fun hwaiting => ?_, fun j => ?_⟩
  · rw [State.setRuntime_runtimes]
    split_ifs
    · exact hr
    · exact h.runtimes j
  · rw [hturn, (hruntime j).1]
    exact h.turn j
  · apply h.calm
    intro j hj
    rw [← (hruntime j).1]
    exact hwaiting j (hturn.trans hj)
  · rw [(hruntime j).1, (hruntime j).2]
    exact h.agrees j

/-- A step of the operation of runtime `i`, or the begin of one. -/
theorem operate (h : s.Agreed platform) (hr : r.Sound platform)
    (hturn : s.turn = none ∨ s.turn = some i) (hkept : Kept s t i r.books r.operation) :
    (t.setRuntime i r).Agreed platform := by
  have hturn' : (t.setRuntime i r).turn = if r.operation.isIdle then none else some i := by
    unfold State.setRuntime
    rw [hkept.turn]
    rcases hturn with hnone | hsome
    · simp [hnone]
    · simp [hsome, Option.filter]
  have hothers (j : ℕ) (hj : j ≠ i) : (t.setRuntime i r).runtimes j = s.runtimes j := by
    rw [State.setRuntime_runtimes, if_neg hj, hkept.runtimes]
  have hself : (t.setRuntime i r).runtimes i = r := by
    rw [State.setRuntime_runtimes, if_pos rfl]
  refine ⟨hkept.sound, fun j => ?_, fun j => ?_, fun hwaiting => ?_, fun j => ?_⟩
  · by_cases hj : j = i
    · rw [hj, hself]
      exact hr
    · rw [hothers j hj]
      exact h.runtimes j
  · rw [hturn']
    by_cases hj : j = i
    · rw [hj, hself]
      cases hidle : r.operation.isIdle with
      | true => simp [OperationPc.isIdle_iff.mp hidle]
      | false =>
        have hbusy : r.operation ≠ .idle := by
          intro heq
          simp [heq, OperationPc.isIdle] at hidle
        simp [hbusy]
    · rw [hothers j hj, h.idle hturn hj]
      cases r.operation.isIdle <;> simp [Ne.symm hj]
  · apply hkept.calm
    cases hidle : r.operation.isIdle with
    | true =>
      rw [OperationPc.isIdle_iff.mp hidle]
      rfl
    | false =>
      have hwaiting' := hwaiting i (by simp [hturn', hidle])
      rwa [hself] at hwaiting'
  · by_cases hj : j = i
    · rw [hj, hself]
      exact hkept.agrees
    · have hagrees := h.agrees j
      rw [h.idle hturn hj] at hagrees
      rw [hothers j hj, h.idle hturn hj]
      exact congr_idle hagrees (hkept.others j hj)

end State.Agreed

/-! ## Every step keeps the agreement -/

theorem workerStep_sourceCalls {r r' : Runtime} {pc pc' : WorkerPc} {es : List Telemetry.Event}
    (h : WorkerPc.Effect r r' pc pc' es) : es.filterMap Event.sourceCall = [] := by
  rw [List.filterMap_eq_nil_iff]
  intro e he
  have hworker := h.events e he
  cases e <;> simp_all [Event.ofWorker, Event.sourceCall]

theorem runtime_agreed {platform : Platform} {s t : State} {i : ℕ} {a : Telemetry.Action}
    {r : Runtime} {es : List Telemetry.Event} {fs : List Sources.Event} (hs : s.Agreed platform)
    (hallowed : allowed s.turn i a = true)
    (hstep : Telemetry.step platform (s.runtimes i) a = some (r, es))
    (hserved : s.serveAll i (es.filterMap Event.sourceCall) = some (t, fs)) :
    (t.setRuntime i r).Agreed platform := by
  have hr := step_sound (hs.runtimes i) hstep
  cases Telemetry.step_cases hstep with
  | configure | refused =>
    cases hserved
    exact hs.background hr rfl rfl
  | destroy => cases hallowed
  | worker active hworker =>
    have heffect := workerStep_effect hworker
    rw [workerStep_sourceCalls heffect] at hserved
    cases hserved
    exact hs.background hr heffect.operation heffect.books
  | @read now usable =>
    cases hserved
    obtain ⟨transport, heq⟩ := Runtime.updateSilenceDiagnostic_eq (s.runtimes i) now
    exact hs.background hr (by rw [heq]) (by rw [heq])
  | start free stopped usable valid =>
    cases hserved
    have hidle := (hs.runtimes i).idle free usable
    have hnone : s.turn = none := by
      simpa [allowed, (hs.turn i), hidle] using hallowed
    have hplain := hs.calm_of_free hnone
    exact hs.operate hr (.inl hnone) (.of_plain hs.sources hplain rfl (hs.holds hidle))
  | stop free owned usable begins =>
    cases hserved
    have hidle := (hs.runtimes i).idle free usable
    have hnone : s.turn = none := by
      simpa [allowed, (hs.turn i), hidle] using hallowed
    refine hs.operate hr (.inl hnone)
      (.of_plain hs.sources (hs.calm_of_free hnone) ?_ (hs.holds hidle))
    rcases begins with ⟨-, rfl⟩ | ⟨-, ⟨-, rfl⟩ | ⟨-, rfl⟩⟩ <;> rfl
  | operation hop =>
    have hturn : s.turn = some i := by
      rw [hs.turn]
      intro hidle
      simp [hidle, operationStep] at hop
    have hkept := operationStep_agrees hs.sources (hs.runtimes i).owned (hs.calm_of_turn hturn)
      (hs.agrees i) hop hserved
    exact hs.operate hr (.inr hturn) hkept

theorem State.Agreed.exists_waiting {platform : Platform} {s : State} {i : ℕ}
    {op : Sources.Operation} (h : s.Agreed platform) (hcall : s.sources.call = some (i, op)) :
    s.turn = some i := by
  obtain ⟨j, hturn, hwaiting⟩ : ∃ j, s.turn = some j ∧ (s.runtimes j).operation.waiting = true := by
    by_contra hnone
    have hcalm := h.calm fun j hj => by
      by_contra hwaiting
      exact hnone ⟨j, hj, by simpa using hwaiting⟩
    simp [hcall] at hcalm
  have hagrees := h.agrees j
  cases hpc : (s.runtimes j).operation <;> rw [hpc] at hwaiting hagrees <;> cases hwaiting
  case awaitStart =>
    rcases hagrees.2.2 with ⟨hcall', -⟩ | ⟨hnone, -⟩
    · rw [hcall] at hcall'
      cases hcall'
      exact hturn
    · simp [hcall] at hnone
  all_goals
    rcases hagrees.2 with ⟨⟨op', -, hcall'⟩, -⟩ | ⟨hnone, -⟩
    · rw [hcall] at hcall'
      cases hcall'
      exact hturn
    · simp [hcall] at hnone

/-- What another view of the sources has to keep for one runtime. -/
theorem agrees_congr {u v : Sources.State} {answer answer' : Option ResultCode} {i : ℕ}
    {b : SourceBooks} {pc : OperationPc} (h : pc.Agrees u answer i b)
    (hclaims : pc.waiting = false → v.owns i = u.owns i)
    (hstarting : Starting u answer i → Starting v answer' i)
    (hstopping : Stopping u answer i → Stopping v answer' i) : pc.Agrees v answer' i b := by
  cases hplain : pc.plain with
  | true =>
    rw [OperationPc.agrees_of_plain hplain] at h ⊢
    rw [hclaims (OperationPc.not_waiting_of_plain hplain)]
    exact h
  | false =>
    cases pc with
    | callStart => exact ⟨h.1, h.2.1, (hclaims rfl).trans h.2.2⟩
    | awaitStart => exact ⟨h.1, h.2.1, hstarting h.2.2⟩
    | awaitStop | awaitCleanup => exact ⟨h.1, hstopping h.2⟩
    | cleanUp caller =>
      cases caller with
      | start => exact h
      | stop | destroy => cases hplain
    | _ => cases hplain

theorem agreed_of_quiet {platform : Platform} {s : State} {u : Sources.State}
    (hs : s.Agreed platform) (hu : u.Sound) (hcall : u.call = s.sources.call)
    (hclaims : ∀ j, u.owns j = s.sources.owns j) : (s.withSources u []).Agreed platform := by
  refine ⟨hu, hs.runtimes, hs.turn, fun hwaiting => ?_, fun j => ?_⟩
  · obtain ⟨hfree, hanswer⟩ := hs.calm hwaiting
    exact ⟨hcall.trans hfree, hanswer⟩
  · apply agrees_congr (hs.agrees j) (fun _ => hclaims j)
    · rintro (⟨hstart, hanswer, howns⟩ | ⟨hfree, r, hanswer, hrest⟩)
      · exact .inl ⟨hcall.trans hstart, hanswer, (hclaims j).trans howns⟩
      · exact .inr ⟨hcall.trans hfree, r, hanswer, by rwa [hclaims]⟩
    · rintro (⟨⟨op, hop, hstop⟩, hanswer⟩ | ⟨hfree, r, hanswer, hrest⟩)
      · exact .inl ⟨⟨op, hop, hcall.trans hstop⟩, hanswer⟩
      · exact .inr ⟨hcall.trans hfree, r, hanswer, by rwa [hclaims]⟩

theorem agreed_of_answered {platform : Platform} {s : State} {before u : Sources.State} {i : ℕ}
    {op : Sources.Operation} {r : ResultCode} (hs : s.Agreed platform)
    (hopen : Sources.Open before s.sources i op) (hu : u.Sound)
    (hanswered : Sources.Answered before u i op r) :
    (s.withSources u [.returned i r]).Agreed platform := by
  have hturn := hs.exists_waiting hopen.call
  have hcall := hopen.call
  refine ⟨hu, hs.runtimes, hs.turn, fun hwaiting => ?_, fun j => ?_⟩
  · have hcalm := hs.calm hwaiting
    simp [hcall] at hcalm
  · by_cases hj : j = i
    · subst hj
      apply agrees_congr (hs.agrees j)
      · intro hwaiting
        have hcalm := hs.calm_of_turn hturn hwaiting
        simp [hcall] at hcalm
      · rintro (⟨hstart, -, howns⟩ | ⟨hfree, -⟩)
        · obtain rfl : op = .start := by simpa [hcall] using hstart
          obtain ⟨-, hok, hrejected⟩ := hanswered.settles
          have hfree (hr : r = .alreadyRunning ∨ r = .invalidConfiguration) : u.owns j = false := by
            rw [hrejected hr, ← hopen.claims, howns]
          exact .inr ⟨hanswered.call, r, rfl, hok, hfree⟩
        · simp [hcall] at hfree
      · rintro (⟨⟨op', hop, hstop⟩, -⟩ | ⟨hfree, -⟩)
        · obtain rfl : op = op' := by simpa [hcall] using hstop
          have howner : s.sources.owns j = true := by
            have hin := hs.sources.inCall
            rw [hcall] at hin
            cases op with
            | start => exact absurd rfl hop
            | stop | retryStop => exact hin.2.1
          have hsettles : u.owns j = true ↔ before.owns j = true ∧ r ≠ .ok ∧ r ≠ .notRunning := by
            cases op with
            | start => exact absurd rfl hop
            | stop | retryStop => exact hanswered.settles.2
          rw [← hopen.claims, howner, and_iff_right rfl] at hsettles
          exact .inr ⟨hanswered.call, r, rfl, hsettles⟩
        · simp [hcall] at hfree
    · have hidle := hs.idle (.inr hturn) hj
      have hagrees := hs.agrees j
      rw [hidle] at hagrees
      show ((s.runtimes j).operation).Agrees u (some r) j (s.runtimes j).books
      rw [hidle]
      apply State.Agreed.congr_idle hagrees
      exact (settles_others hanswered.settles hj).trans (hopen.claims j).symm

theorem bus_agreed {platform : Platform} {s : State} {a : CanBus.Action} {u : Sources.State}
    {es : List Sources.Event} (hs : s.Agreed platform)
    (hstep : Sources.step s.sources (.bus a) = some (u, es)) :
    (s.withSources u es).Agreed platform := by
  cases hcall : s.sources.call with
  | none =>
    obtain ⟨hu, heffect⟩ := Sources.step_free hs.sources hcall hstep
    rcases heffect with ⟨i, op, heq, -⟩ | ⟨-, hfree, rfl, hclaims, -⟩
    · cases heq
    · exact agreed_of_quiet hs hu (hfree.trans hcall.symm) hclaims
  | some call =>
    obtain ⟨i, op⟩ := call
    obtain ⟨before, hopen⟩ := Sources.exists_open hcall
    obtain ⟨hu, heffect⟩ := Sources.step_open hs.sources hopen hstep
    rcases heffect with ⟨hopen', rfl⟩ | ⟨r, hanswered, rfl⟩
    · refine agreed_of_quiet hs hu (hopen'.call.trans hcall.symm) fun j => ?_
      rw [hopen'.claims, hopen.claims]
    · exact agreed_of_answered hs hopen hu hanswered

theorem step_agreed {platform : Platform} {s t : State} {a : Action} {es : List Event}
    (hs : s.Agreed platform) (h : step platform s a = some (t, es)) : t.Agreed platform := by
  cases step_cases h with
  | runtime permitted hstep served => exact runtime_agreed hs permitted hstep served
  | bus hstep => exact bus_agreed hs hstep

theorem initial_agreed (platform : Platform) (configuration : ℕ → CanBus.Configuration) :
    (initial configuration).Agreed platform where
  sources := by
    refine ⟨CanBus.boot_sound, rfl, ⟨?_, ?_⟩⟩
    · simp [initial, Sources.State.owns]
    · simp [initial, Sources.State.owns, Sources.State.Active, CanBus.boot]
  runtimes _ := sound_init platform
  turn := by simp [initial]
  calm _ := ⟨rfl, rfl⟩
  agrees _ := ⟨by simp [initial, Sources.State.owns], by simp [initial]⟩

theorem reachable_agreed {platform : Platform} {configuration : ℕ → CanBus.Configuration}
    {s : State} (h : (machine platform).Reachable (initial configuration) s) : s.Agreed platform :=
  (machine platform).reachable_invariant (initial_agreed platform configuration)
    (fun _ _ _ _ hs hstep => step_agreed hs hstep) h

end Runtimes

end Telemetry
end VehicleCanCore

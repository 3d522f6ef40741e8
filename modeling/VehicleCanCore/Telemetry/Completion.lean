import VehicleCanCore.CanBus.Progress
import VehicleCanCore.Telemetry.OpenInterval
import VehicleCanCore.Telemetry.Progress

/-!
# Every lifecycle operation can return

Whatever state the threads have brought the pipeline to, the operation in progress
can be brought to its return by its own steps, those of the call it has made on the
acquisition, and those of its own worker.
-/

namespace VehicleCanCore

theorem CanBus.asks_of_creates {s : CanBus.State} {ok : Bool}
    (h : s.creates (.control ok) = true) : s.control.asks = true := by
  cases ok with
  | false => cases h
  | true =>
    simp only [CanBus.State.creates] at h
    split at h
    · rename_i hcreate
      rw [hcreate]
      rfl
    · cases h

theorem CanBus.step_tasks {s t : CanBus.State} {a : CanBus.Action} {es : List CanBus.Event}
    (hs : s.tasks ≠ []) (h : CanBus.step s a = some (t, es)) : t.tasks ≠ [] := by
  cases CanBus.step_cases h with
  | control hcontrol => simp [hs]
  | task active htask => simp [hs]
  | _ => exact hs

namespace Telemetry

open Automata

/-! ## The sources -/

namespace Sources

theorem State.advance_objects {s : State} {bus : CanBus.State} {es : List CanBus.Event}
    (hs : ∀ i, (s.sources i).isSome = true) (i : ℕ) :
    (((s.advance bus es).1).sources i).isSome = true := by
  unfold advance
  split
  · exact hs i
  · rename_i j op hcall
    split
    · exact hs i
    · simp only [setSource, Function.update_apply]
      split_ifs
      · rfl
      · exact hs i

theorem step_objects {s t : State} {a : Action} {es : List Event}
    (ha : a.managesObjects = false) (hs : ∀ i, (s.sources i).isSome = true)
    (h : step s a = some (t, es)) (i : ℕ) : (t.sources i).isSome = true := by
  cases step_cases h with
  | manage manages => simp [ha] at manages
  | start =>
    apply State.advance_objects
    exact hs
  | bus => exact State.advance_objects hs i
  | stop | stopRefused => exact hs i

theorem State.Sound.busy {s : State} (hs : s.Sound) {i : ℕ} {op : Operation}
    (hcall : s.call = some (i, op)) : s.bus.control ≠ .idle := by
  have hin := hs.inCall
  rw [hcall] at hin
  intro hidle
  cases op with
  | start => rcases (State.inCall_start hin).2 with ⟨hphase, -⟩ | ⟨hphase, -⟩ <;>
      simp [hidle, CanBus.ControlPc.phase] at hphase
  | stop | retryStop => simpa [hidle, CanBus.ControlPc.phase] using hin.1

theorem call_enabled {s : State} (hs : s.Sound) (hfree : s.call = none) {i : ℕ}
    (hobject : (s.sources i).isSome = true) (op : Operation) :
    ∃ t es, step s (.call i op) = some (t, es) := by
  obtain ⟨self, hself⟩ := Option.isSome_iff_exists.mp hobject
  have hin := hs.inCall
  rw [hfree] at hin
  have hidle := CanBus.ControlPc.idle_of_phase hin.1
  simp only [step, hfree, hself]
  split_ifs
  · simp only [CanBus.step, hidle]
    split_ifs <;> exact ⟨_, _, rfl⟩
  · simp only [CanBus.step, hidle]
    exact ⟨_, _, rfl⟩
  · exact ⟨_, _, rfl⟩

end Sources

namespace Runtimes

/-- No object is destroyed while it is used, and every mutex has a holder. -/
structure State.Maintained (s : State) : Prop where
  objects : ∀ i, (s.sources.sources i).isSome = true
  kept : ∀ i, (s.runtimes i).operation.destroying = false
  held : ∀ i, (s.runtimes i).Held

section

variable {s t : State} {i : ℕ}

theorem serve_objects {e : SourceEvent} {fs : List Sources.Event}
    (hs : ∀ j, (s.sources.sources j).isSome = true) (h : s.serve i e = some (t, fs)) (j : ℕ) :
    (t.sources.sources j).isSome = true := by
  have hcall {op : Sources.Operation} (h : s.callSource i op = some (t, fs)) :
      (t.sources.sources j).isSome = true := by
    simp only [State.callSource, Option.map_eq_some_iff, Prod.exists] at h
    obtain ⟨u, es, hstep, heq⟩ := h
    cases heq
    exact Sources.step_objects rfl hs hstep j
  cases e with
  | start => exact hcall h
  | cleanup call => cases call <;> exact hcall h
  | supportsStopRetry | startReturned | cleanupReturned =>
    simp only [State.serve, Option.ite_none_right_eq_some, Option.some.injEq, Prod.mk.injEq] at h
    obtain ⟨-, rfl, -⟩ := h
    exact hs j

theorem step_maintained {platform : Platform} {a : Action} {es : List Event}
    (hs : s.Agreed platform) (hm : s.Maintained) (h : step platform s a = some (t, es)) :
    t.Maintained := by
  cases step_cases h with
  | bus hstep => exact ⟨Sources.step_objects rfl hm.objects hstep, hm.kept, hm.held⟩
  | @runtime i a r es u fs permitted hstep served =>
    have hobjects (j : ℕ) : (u.sources.sources j).isSome = true := by
      rcases (step_staff (hs.runtimes i) hstep).calls with hnone | ⟨-, e, rfl⟩
      · rw [hnone] at served
        cases served
        exact hm.objects j
      · simp only [Event.sourceCall, List.filterMap_cons, List.filterMap_nil,
          State.serveAll_singleton] at served
        exact serve_objects hm.objects served j
    have hruntimes (j : ℕ) : (u.setRuntime i r).runtimes j = if j = i then r else s.runtimes j := by
      rw [State.setRuntime_runtimes, State.serveAll_runtimes served]
    refine ⟨hobjects, fun j => ?_, fun j => ?_⟩
    · rw [hruntimes]
      split_ifs with hj
      · refine step_kept ?_ (hm.kept i) hstep
        rintro rfl
        cases permitted
      · exact hm.kept j
    · rw [hruntimes]
      split_ifs with hj
      · exact step_held (hs.runtimes i) (hm.held i) hstep
      · exact hm.held j

theorem initial_maintained (configuration : ℕ → CanBus.Configuration) :
    (initial configuration).Maintained where
  objects _ := rfl
  kept _ := rfl
  held _ hheld := by cases hheld

theorem serve_enabled {e : SourceEvent} (hs : s.sources.Sound) (hfree : s.sources.call = none)
    (hobject : (s.sources.sources i).isSome = true) (he : e.begins = true) :
    ∃ t fs, s.serve i e = some (t, fs) := by
  have hcall (op : Sources.Operation) : ∃ t fs, s.callSource i op = some (t, fs) := by
    obtain ⟨u, es, hstep⟩ := Sources.call_enabled hs hfree hobject op
    exact ⟨_, _, by rw [State.callSource, hstep]; rfl⟩
  cases e with
  | start => exact hcall .start
  | cleanup call =>
    cases call with
    | stop => exact hcall .stop
    | retryStop => exact hcall .retryStop
  | supportsStopRetry supported => exact ⟨_, _, if_pos he⟩
  | startReturned | cleanupReturned => cases he

theorem step_enabled {platform : Platform} {a : Telemetry.Action} {r : Runtime}
    {es : List Telemetry.Event} {fs : List Sources.Event} (hallowed : allowed s.turn i a = true)
    (hstep : Telemetry.step platform (s.runtimes i) a = some (r, es))
    (hserved : s.serveAll i (es.filterMap Event.sourceCall) = some (t, fs)) :
    ∃ gs, step platform s (.runtime i a) = some (t.setRuntime i r, gs) := by
  simp only [step, hallowed, hstep, if_true, Option.bind_some, hserved, Option.map_some]
  exact ⟨_, rfl⟩

theorem bus_enabled {a : CanBus.Action} {b : CanBus.State} {es : List CanBus.Event}
    (platform : Platform) (hcall : a.beginsCall = false)
    (hbus : CanBus.step s.sources.bus a = some (b, es)) :
    ∃ t fs, step platform s (.bus a) = some (t, fs) ∧ t.sources.bus = b ∧
      t.runtimes = s.runtimes ∧ t.turn = s.turn := by
  refine ⟨s.withSources (s.sources.advance b es).1 (s.sources.advance b es).2,
    (s.sources.advance b es).2.map .source, ?_, Sources.State.advance_bus s.sources b es, rfl, rfl⟩
  simp [step, Sources.step, hcall, hbus]

end

end Runtimes

namespace Pipeline

/-! ## Who continues -/

/-- The steps of the runtime in operation, of its worker and of the calls these have
made on the acquisition. Driver calls and the creation of semaphores and threads have
the outcome that `answers` gives, the clock and the callbacks of the worker that of
`inputs`; only a receive task that may not be created yet is not created. -/
def Continues (answers : State → Bool) (inputs : State → WorkerInput) (s : State) :
    Action → Prop
  | .bus (.control ok) => s.bus.control.asks = true →
      CanBus.CreatesAcknowledged s.bus (.control (answers s)) → ok = answers s
  | .runtime i (.operation input) => s.system.turn = some i ∧
      ((s.runtime i).operation = .createWorker → input.ok = answers s)
  | .runtime i (.worker input) => s.system.turn = some i ∧ input = inputs s
  | .receive i => s.system.turn = some i
  | .bus (.consumer _) => True
  | _ => False

/-- The invariant of all threads, and what they find. -/
structure State.Workable (platform : Platform) (sole : ℕ) (s : State) : Prop where
  piped : s.Piped platform sole
  opened : s.Opened
  maintained : s.system.Maintained
  equipped : (∃ i, (s.runtime i).Working) → s.bus.tasks ≠ []

section

variable {platform : Platform} {sole : ℕ} {s t : State} {i : ℕ}

theorem step_equipped {a : Action} {es : List Event} (hs : s.Workable platform sole)
    (h : step platform s a = some (t, es)) (ht : ∃ i, (t.runtime i).Working) :
    t.bus.tasks ≠ [] := by
  have hruntime {i : ℕ} {a : Telemetry.Action} {es : List Runtimes.Event}
      (hstep : Runtimes.step platform s.system (.runtime i a) = some (t.system, es)) :
      t.bus.tasks ≠ [] := by
    have hagreed := hs.piped.staffed.agreed
    have hbefore : s.bus.tasks ≠ [] := by
      obtain ⟨j, hj⟩ := ht
      obtain ⟨r, fs, hruntime, hruntimes⟩ := Runtimes.step_runtime_runtimes hstep
      rw [State.runtime, hruntimes] at hj
      split_ifs at hj with hij
      · rcases (step_staff (hagreed.runtimes i) hruntime).working hj with hworking | ⟨hpc, -⟩
        · exact hs.equipped ⟨i, hworking⟩
        · obtain ⟨n, hinterval⟩ := hs.opened.interval
            (.inl (.inr ⟨i, .inr (by rw [hpc]; rfl)⟩))
          obtain ⟨pc, hpc, -⟩ := hinterval.task
          intro hnone
          simp [hnone] at hpc
      · exact hs.equipped ⟨j, hj⟩
    rcases Runtimes.step_runtime_bus hagreed hstep with hsame | ⟨b, fs, -, hbus⟩
    · rw [State.bus, hsame]
      exact hbefore
    · exact CanBus.step_tasks hbefore hbus
  have hbus {a : CanBus.Action} {es : List Runtimes.Event}
      (hstep : Runtimes.step platform s.system (.bus a) = some (t.system, es)) :
      t.bus.tasks ≠ [] := by
    obtain ⟨-, hruntimes, fs, hbus⟩ := Runtimes.step_bus_bus hstep
    refine CanBus.step_tasks (hs.equipped ?_) hbus
    simpa only [State.runtime, hruntimes] using ht
  cases step_cases h with
  | taken _ _ hstep | runtime _ hstep => exact hruntime hstep
  | receive _ _ hstep | bus _ _ hstep => exact hbus hstep

theorem step_workable {a : Action} {es : List Event} (hs : s.Workable platform sole)
    (hC : Permitted platform sole s a) (h : step platform s a = some (t, es)) :
    t.Workable platform sole := by
  refine ⟨step_piped hs.piped hC h, step_opened hs.piped hs.opened hC h, ?_, step_equipped hs h⟩
  cases step_cases h with
  | taken _ _ hstep | runtime _ hstep | receive _ _ hstep | bus _ _ hstep =>
    exact Runtimes.step_maintained hs.piped.staffed.agreed hs.maintained hstep

end

theorem initial_workable (platform : Platform) (sole : ℕ)
    (configuration : ℕ → CanBus.Configuration) :
    (initial configuration).Workable platform sole where
  piped := initial_piped platform sole configuration
  opened := initial_opened configuration
  maintained := Runtimes.initial_maintained configuration
  equipped := fun ⟨_, hworking⟩ => absurd hworking Runtimes.not_working_init

theorem run_workable {platform : Platform} {sole : ℕ} {configuration : ℕ → CanBus.Configuration}
    {s : State} {as : List Action} {es : List Event}
    (hC : (machine platform).Along (Permitted platform sole) (initial configuration) as)
    (hrun : (machine platform).run (initial configuration) as = some (s, es)) :
    s.Workable platform sole :=
  (machine platform).run_preserves_along (fun _ _ _ _ hs hC hstep => step_workable hs hC hstep)
    (initial_workable platform sole configuration) hC hrun

/-! ## Distances -/

def callRank (consumer : CanBus.ReceivePc) : Option Call → ℕ
  | none => 11
  | some ⟨_, none⟩ => 1 + consumer.distance
  | some ⟨_, some _⟩ => 0

theorem callRank_le (consumer : CanBus.ReceivePc) (call : Option Call) :
    callRank consumer call ≤ 11 := by
  have hle := consumer.distance_le
  unfold callRank
  split <;> omega

namespace State

def workerRank (s : State) (i : ℕ) : ℕ :=
  12 * (s.worker i).elim 0 WorkerPc.rank + callRank s.bus.consumer s.call

/-- Distance from the next step of the operation itself. -/
def delay (s : State) (i : ℕ) : ℕ :=
  if (s.runtime i).operation.waiting then s.bus.control.distance s.bus.shared else s.workerRank i

def rank (s : State) : ℕ ×ₗ ℕ :=
  s.system.turn.elim (toLex (0, 0)) fun i => toLex ((s.runtime i).operation.rank, s.delay i)

end State

section

variable {s t : State} {i : ℕ}

theorem rank_of_operation (hs : s.system.turn = some i)
    (ht : t.system.turn = none ∨ t.system.turn = some i)
    (hlt : (t.runtime i).operation.rank < (s.runtime i).operation.rank) : t.rank < s.rank := by
  rcases ht with ht | ht
  · simp only [State.rank, hs, ht, Option.elim, Prod.Lex.toLex_lt_toLex]
    exact .inl (by omega)
  · simp only [State.rank, hs, ht, Option.elim, Prod.Lex.toLex_lt_toLex]
    exact .inl hlt

theorem rank_of_delay (hs : s.system.turn = some i) (ht : t.system.turn = some i)
    (hsame : (t.runtime i).operation = (s.runtime i).operation) (hlt : t.delay i < s.delay i) :
    t.rank < s.rank := by
  simp only [State.rank, hs, ht, Option.elim, Prod.Lex.toLex_lt_toLex, hsame]
  exact .inr ⟨trivial, hlt⟩

end

/-! ## Steps that are possible -/

section

variable {platform : Platform} {sole : ℕ} {s : State} {i : ℕ} {answers : State → Bool}
  {inputs : State → WorkerInput}

theorem bus_enabled {a : CanBus.Action} {b : CanBus.State} {es : List CanBus.Event}
    (hreceive : beginsReceive a = false) (hcall : a.beginsCall = false)
    (hbus : CanBus.step s.bus a = some (b, es)) : ∃ t fs, step platform s (.bus a) = some (t, fs) ∧
      t.bus = b ∧ t.system.runtimes = s.system.runtimes ∧ t.system.turn = s.system.turn ∧
      t.call = s.call.map fun call =>
        { call with answer := call.answer <|> es.findSome? answer? } := by
  obtain ⟨system, fs, hstep, hb, hruntimes, hturn⟩ := Runtimes.bus_enabled platform hcall hbus
  refine ⟨{
    system := system
    call := s.call.map fun call => { call with answer := call.answer <|> es.findSome? answer? } },
    es.map .bus ++ fs.map .system, ?_, hb, hruntimes, hturn, rfl⟩
  simp [step, hreceive, hbus, hstep]

/-- Some continuing step brings the pipeline closer to the return of the operation. -/
def State.Advances (platform : Platform) (sole : ℕ) (answers : State → Bool)
    (inputs : State → WorkerInput) (s : State) : Prop :=
  ∃ a t es, (Permitted platform sole s a ∧ Continues answers inputs s a) ∧
    step platform s a = some (t, es) ∧ t.rank < s.rank

theorem permitted_of_turn (hs : s.Workable platform sole) (hturn : s.system.turn = some i)
    (a : Telemetry.Action) : Permitted platform sole s (.runtime i a) := by
  rintro rfl
  by_contra hne
  have hunused := hs.piped.staffed.tied i hne
  have hbusy := (hs.piped.staffed.agreed.turn i).mp hturn
  rw [hunused] at hbusy
  exact hbusy rfl

theorem advances_of_call {op : Sources.Operation} (hs : s.Workable platform sole)
    (hturn : s.system.turn = some i) (hcall : s.system.sources.call = some (i, op))
    (hwaiting : (s.runtime i).operation.waiting = true) :
    s.Advances platform sole answers inputs := by
  have hbusy : s.bus.control ≠ .idle := hs.piped.staffed.agreed.sources.busy hcall
  have hfalse : CanBus.CreatesAcknowledged s.bus (.control false) := fun hcreates => by
    cases hcreates
  -- a receive task that may not be created yet is refused
  obtain ⟨answer, hallowed, hanswer⟩ : ∃ answer,
      CanBus.CreatesAcknowledged s.bus (.control answer) ∧
        (CanBus.CreatesAcknowledged s.bus (.control (answers s)) → answer = answers s) := by
    by_cases hallowed : CanBus.CreatesAcknowledged s.bus (.control (answers s))
    · exact ⟨_, hallowed, fun _ => rfl⟩
    · exact ⟨false, hfalse, fun h => absurd h hallowed⟩
  obtain ⟨ok, g, pc, es, hasks, hcontrol, hlt⟩ :=
    CanBus.controlStep_advances hs.piped.queued.bounded hbusy answer
  have hpermitted : CanBus.CreatesAcknowledged s.bus (.control ok) := by
    intro hcreates
    rw [hasks (CanBus.asks_of_creates hcreates)] at hcreates
    exact hallowed hcreates
  have hbus : CanBus.step s.bus (.control ok) = some ({ s.bus with
      shared := g
      control := pc
      tasks := s.bus.tasks ++ CanBus.spawned ok s.bus.control }, es) := by
    simp [CanBus.step, hcontrol]
  obtain ⟨t, fs, hstep, hb, hruntimes, hsame, -⟩ := bus_enabled rfl rfl hbus
  refine ⟨.bus (.control ok), t, fs, ⟨hpermitted, ?_⟩, hstep, ?_⟩
  · intro hasked hallowed
    rw [hasks hasked, hanswer hallowed]
  · have hoperation : (t.runtime i).operation = (s.runtime i).operation := by
      rw [State.runtime, hruntimes]
      rfl
    refine rank_of_delay hturn (hsame.trans hturn) hoperation ?_
    rw [State.delay, State.delay, hoperation, hwaiting, hb]
    exact hlt

theorem runtime_enabled {a : Telemetry.Action} {r : Runtime} {es : List Telemetry.Event}
    {u : Runtimes.State} {fs : List Sources.Event}
    (helse : ∀ input, a = .worker input → (s.worker i).any WorkerPc.receives = false)
    (hallowed : Runtimes.allowed s.system.turn i a = true)
    (hstep : Telemetry.step platform (s.runtime i) a = some (r, es))
    (hserved : s.system.serveAll i (es.filterMap Event.sourceCall) = some (u, fs)) :
    ∃ gs, step platform s (.runtime i a) = some ({ s with system := u.setRuntime i r }, gs) := by
  obtain ⟨gs, hruntime⟩ := Runtimes.step_enabled hallowed hstep hserved
  cases a with
  | worker input => exact ⟨gs.map .system, by simp [step, helse input rfl, hruntime]⟩
  | _ => exact ⟨gs.map .system, by simp [step, hruntime]⟩

theorem advances_of_operation {input : OperationInput} {r : Runtime} {pc : OperationPc}
    {es : List Telemetry.Event} {u : Runtimes.State} {fs : List Sources.Event}
    (hs : s.Workable platform sole) (hturn : s.system.turn = some i)
    (hok : (s.runtime i).operation = .createWorker → input.ok = answers s)
    (hop : operationStep platform (s.runtime i) input (s.runtime i).operation = some (r, pc, es))
    (hlt : pc.rank < (s.runtime i).operation.rank)
    (hserved : s.system.serveAll i (es.filterMap Event.sourceCall) = some (u, fs)) :
    s.Advances platform sole answers inputs := by
  have hruntime : Telemetry.step platform (s.runtime i) (.operation input) =
      some ({ r with operation := pc }, es) := by
    simp [Telemetry.step, hop]
  obtain ⟨gs, hstep⟩ := runtime_enabled (by simp) rfl hruntime hserved
  have hpermitted := permitted_of_turn hs hturn (.operation input)
  refine ⟨.runtime i (.operation input), _, gs, ⟨hpermitted, hturn, hok⟩, hstep, ?_⟩
  have hagreed := (step_workable hs hpermitted hstep).piped.staffed.agreed
  have hruntimes (j : ℕ) : (u.setRuntime i { r with operation := pc }).runtimes j =
      if j = i then { r with operation := pc } else s.runtime j := by
    rw [Runtimes.State.setRuntime_runtimes, Runtimes.State.serveAll_runtimes hserved]
    rfl
  refine rank_of_operation hturn ?_ ?_
  · rw [or_iff_not_imp_left]
    intro hbusy
    obtain ⟨j, hj⟩ := Option.ne_none_iff_exists'.mp hbusy
    have hother := (hagreed.turn j).mp hj
    by_cases hji : j = i
    · rw [hji] at hj
      exact hj
    · rw [hruntimes, if_neg hji] at hother
      have hturn' := (hs.piped.staffed.agreed.turn j).mpr hother
      rw [hturn] at hturn'
      exact absurd (Option.some.inj hturn').symm hji
  · rw [State.runtime, hruntimes, if_pos rfl]
    exact hlt

theorem advances_of_worker {r : Runtime} {pc pc' : WorkerPc}
    (hs : s.Workable platform sole) (hturn : s.system.turn = some i)
    (hwaiting : (s.runtime i).operation.waiting = false) (hworker : s.worker i = some pc)
    (hlt : pc'.rank < pc.rank) (hsame : r.operation = (s.runtime i).operation)
    (hstep : ∃ t gs, step platform s (.runtime i (.worker (inputs s))) = some (t, gs) ∧
      t.runtime i = { r with worker := some pc' }) : s.Advances platform sole answers inputs := by
  obtain ⟨t, gs, hstep, hruntime⟩ := hstep
  have hpermitted := permitted_of_turn hs hturn (.worker (inputs s))
  refine ⟨.runtime i (.worker (inputs s)), t, gs, ⟨hpermitted, hturn, rfl⟩, hstep, ?_⟩
  have hoperation : (t.runtime i).operation = (s.runtime i).operation := by
    rw [hruntime]
    exact hsame
  have hagreed := (step_workable hs hpermitted hstep).piped.staffed.agreed
  have hbusy := (hs.piped.staffed.agreed.turn i).mp hturn
  have hturn' : t.system.turn = some i := (hagreed.turn i).mpr (hoperation ▸ hbusy)
  refine rank_of_delay hturn hturn' hoperation ?_
  have hafter : t.worker i = some pc' := by rw [State.worker, hruntime]
  have hle := callRank_le t.bus.consumer t.call
  simp only [State.delay, hoperation, hwaiting, Bool.false_eq_true, if_false, State.workerRank,
    hafter, hworker, Option.elim]
  omega

theorem worker_enabled {input : WorkerInput} {r : Runtime} {pc pc' : WorkerPc}
    {es : List Telemetry.Event} (hworker : s.worker i = some pc) (hreceives : pc.receives = false)
    (hwork : workerStep (s.runtime i) input pc = some (r, pc', es)) :
    ∃ t gs, step platform s (.runtime i (.worker input)) = some (t, gs) ∧
      t.runtime i = { r with worker := some pc' } := by
  have hworker' : (s.runtime i).worker = some pc := hworker
  have hruntime : Telemetry.step platform (s.runtime i) (.worker input) =
      some ({ r with worker := some pc' }, es) := by
    simp [Telemetry.step, hworker', hwork]
  have hnone := Runtimes.workerStep_sourceCalls (workerStep_effect hwork)
  have hserved : s.system.serveAll i (es.filterMap Event.sourceCall) = some (s.system, []) := by
    rw [hnone]
    rfl
  obtain ⟨gs, hstep⟩ := runtime_enabled (fun _ _ => by simp [hworker, hreceives]) rfl hruntime
    hserved
  refine ⟨_, gs, hstep, ?_⟩
  rw [State.runtime, Runtimes.State.setRuntime_runtimes, if_pos rfl]

theorem taken_enabled {input : WorkerInput} {budget : WorkBudget} {received : Received}
    (hworker : s.worker i = some (.receive budget)) (hcall : s.call = some ⟨i, some received⟩) :
    ∃ t gs, step platform s (.runtime i (.worker input)) = some (t, gs) ∧
      t.runtime i = { s.runtime i with worker := some (.received budget received input.now) } := by
  have hworker' : (s.runtime i).worker = some (.receive budget) := hworker
  have hruntime : Telemetry.step platform (s.runtime i)
      (.worker { input with received := received }) =
        some ({ s.runtime i with worker := some (.received budget received input.now) },
          [.received received]) := by
    simp [Telemetry.step, hworker', workerStep]
  have hserved : s.system.serveAll i ([Telemetry.Event.received received].filterMap
      Event.sourceCall) = some (s.system, []) := rfl
  obtain ⟨gs, hstep⟩ := Runtimes.step_enabled rfl hruntime hserved
  have hanswer := State.answer_eq_some.mpr hcall
  have htaken : step platform s (.runtime i (.worker input)) =
      some ({ system := s.system.setRuntime i
                { s.runtime i with worker := some (.received budget received input.now) } },
        gs.map .system) := by
    rw [step, if_pos (by rw [hworker]; rfl), hanswer, Option.bind_some]
    exact congrArg (Option.map _) hstep
  refine ⟨_, _, htaken, ?_⟩
  rw [State.runtime, Runtimes.State.setRuntime_runtimes, if_pos rfl]

theorem receive_enabled {budget : WorkBudget} (hs : s.Workable platform sole)
    (hworker : s.worker i = some (.receive budget)) (hcall : s.call = none) :
    ∃ t es, step platform s (.receive i) = some (t, es) ∧
      t.system.runtimes = s.system.runtimes ∧ t.system.turn = s.system.turn ∧
      t.call = some { receiver := i } ∧
      t.bus.consumer = .enter (s.runtime i).config.receiveTimeoutMs := by
  have hidle : s.system.sources.bus.consumer = .idle := hs.piped.idle_of_no_call hcall
  have hbus : CanBus.step s.system.sources.bus (.receive (s.runtime i).config.receiveTimeoutMs) =
      some ({ s.system.sources.bus with
        consumer := .enter (s.runtime i).config.receiveTimeoutMs }, []) := by
    simp [CanBus.step, hidle]
  obtain ⟨system, fs, hstep, hb, hruntimes, hturn⟩ := Runtimes.bus_enabled platform rfl hbus
  refine ⟨{ system := system, call := some { receiver := i } }, [], ?_, hruntimes, hturn, rfl,
    congrArg CanBus.State.consumer hb⟩
  simp [step, hworker, WorkerPc.receives, hcall, hstep]

/-- A worker that is to stop is not held up by the `receive` call that it is in. -/
theorem advances_of_receive {budget : WorkBudget} (hs : s.Workable platform sole)
    (hturn : s.system.turn = some i) (hwaiting : (s.runtime i).operation.waiting = false)
    (hworker : s.worker i = some (.receive budget)) : s.Advances platform sole answers inputs := by
  have hdelay {t : State} (hruntimes : t.system.runtimes = s.system.runtimes)
      (hsame : t.system.turn = s.system.turn)
      (hlt : callRank t.bus.consumer t.call < callRank s.bus.consumer s.call) :
      t.rank < s.rank := by
    have hruntime : t.runtime i = s.runtime i := by rw [State.runtime, hruntimes]; rfl
    refine rank_of_delay hturn (hsame.trans hturn) (by rw [hruntime]) ?_
    simp only [State.delay, State.workerRank, State.worker, hruntime, hwaiting, Bool.false_eq_true,
      if_false]
    omega
  cases hcall : s.call with
  | none =>
    obtain ⟨t, es, hstep, hruntimes, hsame, hcalled, hconsumer⟩ := receive_enabled hs hworker hcall
    refine ⟨.receive i, t, es, ⟨trivial, hturn⟩, hstep, hdelay hruntimes hsame ?_⟩
    rw [hcalled, hconsumer, hcall]
    simp [callRank, CanBus.ReceivePc.distance]
  | some call =>
    obtain ⟨j, answer⟩ := call
    have hworking : (s.runtime i).Working := ⟨_, hworker, rfl⟩
    obtain rfl : j = i := hs.piped.staffed.unique j i (hs.piped.working_of_call hcall) hworking
    cases answer with
    | none =>
      have hbusy : s.bus.consumer ≠ .idle := by
        have hpending := hs.piped.coupled.busy.mp ⟨j, hcall⟩
        intro hidle
        rw [hidle] at hpending
        cases hpending
      have havailable := (hs.opened.signalling (.inr (hs.equipped ⟨j, hworking⟩))).1
      obtain ⟨ok, g, pc, es, hconsumer, hlt⟩ := CanBus.receiveStep_advances havailable hbusy
      have hbus : CanBus.step s.bus (.consumer ok) =
          some ({ s.bus with shared := g, consumer := pc }, es) := by
        simp [CanBus.step, hconsumer]
      obtain ⟨t, fs, hstep, hb, hruntimes, hsame, hcalled⟩ := bus_enabled rfl rfl hbus
      have hpermitted : CanBus.CreatesAcknowledged s.bus (.consumer ok) := fun hcreates => by
        cases hcreates
      refine ⟨.bus (.consumer ok), t, fs, ⟨hpermitted, trivial⟩, hstep,
        hdelay hruntimes hsame ?_⟩
      rw [hcalled, hb, hcall]
      cases hanswer : es.findSome? answer? with
      | none => simpa [callRank] using hlt
      | some received => simp [callRank]
    | some received =>
      exact advances_of_worker hs hturn hwaiting hworker (by simp [WorkerPc.rank]) rfl
        (taken_enabled hworker hcall)

/-- A worker that holds the refresh mutex, or is joined, goes on. -/
theorem advances_of_blocked (hs : s.Workable platform sole) (hturn : s.system.turn = some i)
    (hblocked : (s.runtime i).operation.Blocked platform (s.runtime i)) :
    s.Advances platform sole answers inputs := by
  have hheld := hs.maintained.held i
  have hmoves {pc : WorkerPc} (hworker : s.worker i = some pc) (hreceives : pc.receives = false)
      (hwaiting : (s.runtime i).operation.waiting = false)
      (hstep : ∃ r pc' es, workerStep (s.runtime i) (inputs s) pc = some (r, pc', es) ∧
        pc'.rank < pc.rank) : s.Advances platform sole answers inputs := by
    obtain ⟨r, pc', es, hwork, hlt⟩ := hstep
    exact advances_of_worker hs hturn hwaiting hworker hlt (workerStep_effect hwork).operation
      (worker_enabled hworker hreceives hwork)
  generalize hpc : (s.runtime i).operation = pc at hblocked
  cases hblocked with
  | @mutex _ p refreshing waits held =>
    rcases hheld held with ⟨q, hq, hholds⟩ | ⟨q, hq, hholds⟩
    · have hq : (s.runtime i).operation.refreshing = some q := hq
      rw [hpc, refreshing] at hq
      cases hq
      simp [waits] at hholds
    · obtain ⟨w, hw, hrefresh⟩ := Option.bind_eq_some_iff.mp hq
      have hworker : s.worker i = some w := hw
      refine hmoves hworker (by cases w <;> first | rfl | cases hrefresh)
        (by rw [hpc]; cases pc <;> first | rfl | cases refreshing) ?_
      refine (workerStep_advances (inputs s) (WorkerPc.running_of_refreshing hrefresh)
        (.inr ⟨q, hrefresh, hholds⟩)).resolve_left ?_
      rintro ⟨q', hq', hfree, -⟩
      rw [hrefresh] at hq'
      cases hq'
      simp [hholds] at hfree
  | @worker result host running =>
    subst host
    have hwaiting : (s.runtime i).operation.waiting = false := by rw [hpc]; rfl
    obtain ⟨w, hworker, hrunning⟩ : (s.runtime i).Working := by
      cases hw : (s.runtime i).worker with
      | none => simp [Runtime.workerGone, hw] at running
      | some w => exact ⟨w, hw, by simpa [Runtime.workerGone, hw] using running⟩
    have hstop : (s.runtime i).stopRequested = true := by
      rw [← Bool.not_eq_false]
      intro hserving
      have hunasked := (hs.opened.unasked i ⟨⟨w, hworker, hrunning⟩, hserving⟩).1
      rw [hpc] at hunasked
      cases hunasked
    by_cases hreceives : w.receives = true
    · have hany : (s.worker i).any WorkerPc.receives = true := by
        rw [State.worker, hworker]
        exact hreceives
      obtain ⟨budget, hreceive⟩ := receives_eq_true.mp hany
      exact advances_of_receive hs hturn hwaiting hreceive
    · refine hmoves hworker (Bool.eq_false_iff.mpr hreceives) hwaiting ?_
      refine (workerStep_advances (inputs s) hrunning (.inl hstop)).resolve_left ?_
      rintro ⟨p, hp, hfree, hmutex⟩
      rcases hheld hmutex with ⟨q, hq, -⟩ | ⟨q, hq, hholds⟩
      · have hq : (s.runtime i).operation.refreshing = some q := hq
        rw [hpc] at hq
        cases hq
      · obtain ⟨w', hw', hrefresh⟩ := Option.bind_eq_some_iff.mp hq
        have hw' : (s.runtime i).worker = some w' := hw'
        rw [hworker] at hw'
        cases hw'
        rw [hp] at hrefresh
        cases hrefresh
        simp [hfree] at hholds

theorem serveAll_enabled {es : List Telemetry.Event} (hlength : es.length ≤ 1)
    (hserve : ∀ e, .source e ∈ es → ∃ u fs, s.system.serve i e = some (u, fs)) :
    ∃ u fs, s.system.serveAll i (es.filterMap Event.sourceCall) = some (u, fs) := by
  rcases sourceCalls_of_length hlength with hnone | ⟨e, rfl⟩
  · exact ⟨s.system, [], by rw [hnone]; rfl⟩
  · obtain ⟨u, fs, hserved⟩ := hserve e (by simp)
    exact ⟨u, fs, (Runtimes.State.serveAll_singleton s.system i e).trans hserved⟩

/-- Outside calls on its source the operation goes on, or waits for the worker. -/
theorem advances_of_plain (hs : s.Workable platform sole) (hturn : s.system.turn = some i)
    (hwaiting : (s.runtime i).operation.waiting = false) :
    s.Advances platform sole answers inputs := by
  have hagreed := hs.piped.staffed.agreed
  obtain ⟨ok, hok, hwait⟩ : ∃ ok, ((s.runtime i).operation = .createWorker → ok = answers s) ∧
      ∀ result, (s.runtime i).operation = .awaitWorker result → ok = false := by
    by_cases hcreate : (s.runtime i).operation = .createWorker
    · exact ⟨answers s, fun _ => rfl, fun result hawait => by simp [hcreate] at hawait⟩
    · exact ⟨false, fun h => absurd h hcreate, fun _ _ => rfl⟩
  rcases operationStep_advances platform { ok := ok }
    ((hagreed.turn i).mp hturn) (hs.maintained.kept i) hwait rfl with
      hblocked | ⟨r, pc, es, hop, hlt, hbegins⟩
  · exact advances_of_blocked hs hturn hblocked
  · have hcalm := hagreed.calm_of_turn hturn hwaiting
    obtain ⟨u, fs, hserved⟩ := serveAll_enabled (s := s) (i := i) (operationStep_events hop)
      fun e he => Runtimes.serve_enabled hagreed.sources hcalm.1 (hs.maintained.objects i)
        (hbegins hwaiting e he)
    exact advances_of_operation hs hturn hok hop hlt hserved

/-- Inside a call on its source the operation waits for the acquisition, or takes the
answer. -/
theorem advances_of_waiting (hs : s.Workable platform sole) (hturn : s.system.turn = some i)
    (hwaiting : (s.runtime i).operation.waiting = true) :
    s.Advances platform sole answers inputs := by
  have hagreed := hs.piped.staffed.agreed
  have hplain {pc : OperationPc} (hpc : pc.waiting = false) : (s.runtime i).operation ≠ pc := by
    rintro rfl
    simp [hpc] at hwaiting
  have hanswered {r : ResultCode} (hanswer : s.system.answer = some r) :
      s.Advances platform sole answers inputs := by
    rcases operationStep_advances platform { result := r }
      ((hagreed.turn i).mp hturn) (hs.maintained.kept i)
      (fun result hawait => absurd hawait (hplain rfl)) rfl with
        hblocked | ⟨r', pc, es, hop, hlt, -⟩
    · exact advances_of_blocked hs hturn hblocked
    · obtain ⟨u, fs, hserved⟩ := serveAll_enabled (s := s) (i := i) (operationStep_events hop)
        fun e he => by
          rcases operationStep_returns hwaiting hop with rfl | rfl <;>
            obtain rfl : e = _ := by simpa using he
          all_goals exact ⟨_, _, if_pos hanswer⟩
      exact advances_of_operation hs hturn (fun hcreate => absurd hcreate (hplain rfl)) hop hlt
        hserved
  have hagrees := hagreed.agrees i
  change ((s.runtime i).operation).Agrees s.system.sources s.system.answer i _ at hagrees
  cases hpc : (s.runtime i).operation <;> rw [hpc] at hagrees <;>
    first | exact absurd hpc (hplain rfl) | skip
  case awaitStart =>
    rcases hagrees.2.2 with ⟨hcall, -⟩ | ⟨-, r, hanswer, -⟩
    · exact advances_of_call hs hturn hcall hwaiting
    · exact hanswered hanswer
  all_goals
    rcases hagrees.2 with ⟨⟨op, -, hcall⟩, -⟩ | ⟨-, r, hanswer, -⟩
    · exact advances_of_call hs hturn hcall hwaiting
    · exact hanswered hanswer

theorem workable_advances (answers : State → Bool) (inputs : State → WorkerInput)
    (hs : s.Workable platform sole) :
    s.system.turn = none ∨ s.Advances platform sole answers inputs := by
  cases hturn : s.system.turn with
  | none => exact .inl rfl
  | some i =>
    right
    by_cases hwaiting : (s.runtime i).operation.waiting = true
    · exact advances_of_waiting hs hturn hwaiting
    · exact advances_of_plain hs hturn (Bool.eq_false_iff.mpr hwaiting)

/-- The operation in progress stays in progress until it returns to its caller. -/
theorem step_returns {t : State} {a : Action} {es : List Event} (hs : s.Workable platform sole)
    (hturn : s.system.turn = some i)
    (hC : Permitted platform sole s a ∧ Continues answers inputs s a)
    (h : step platform s a = some (t, es)) :
    t.system.turn = some i ∨ ∃ result, .system (.runtime i (.returned result)) ∈ es := by
  have hagreed := (step_workable hs hC.1 h).piped.staffed.agreed
  have hbusy := (hs.piped.staffed.agreed.turn i).mp hturn
  have hkept (hsame : (t.system.runtimes i).operation = (s.system.runtimes i).operation) :
      t.system.turn = some i := (hagreed.turn i).mpr (hsame ▸ hbusy)
  have hruntime {a : Telemetry.Action} {gs : List Runtimes.Event}
      (ha : (∃ input, a = .operation input) ∨ ∃ input, a = .worker input)
      (hstep : Runtimes.step platform s.system (.runtime i a) = some (t.system, gs)) :
      t.system.turn = some i ∨ ∃ result, .runtime i (.returned result) ∈ gs := by
    obtain ⟨r, fs, hr, hruntimes⟩ := Runtimes.step_runtime_runtimes hstep
    obtain ⟨r', fs', ls, hr', rfl⟩ := Runtimes.step_runtime_events hstep
    rw [hr] at hr'
    cases hr'
    have ht : t.system.runtimes i = r := by rw [hruntimes, if_pos rfl]
    rcases ha with ⟨input, rfl⟩ | ⟨input, rfl⟩
    · obtain ⟨r', pc, hop, rfl⟩ := step_operation hr
      by_cases hidle : pc = .idle
      · subst hidle
        obtain ⟨result, rfl⟩ := operationStep_idle hop
        exact .inr ⟨result, by simp⟩
      · exact .inl ((hagreed.turn i).mpr (by rw [ht]; exact hidle))
    · obtain ⟨pc, r', pc', -, hwork, rfl⟩ := step_worker hr
      exact .inl (hkept (by rw [ht]; exact (workerStep_effect hwork).operation))
  cases step_cases h with
  | @taken j input budget received system fs receives answered hstep =>
    obtain rfl : i = j := Option.some.inj (hturn.symm.trans hC.2.1)
    refine (hruntime (.inr ⟨_, rfl⟩) hstep).imp_right ?_
    rintro ⟨result, hresult⟩
    exact ⟨result, List.mem_map_of_mem hresult⟩
  | @runtime j a system fs elsewhere hstep =>
    have hcontinues : s.system.turn = some j ∧
        ((∃ input, a = .operation input) ∨ ∃ input, a = .worker input) := by
      cases a with
      | operation input => exact ⟨hC.2.1, .inl ⟨input, rfl⟩⟩
      | worker input => exact ⟨hC.2.1, .inr ⟨input, rfl⟩⟩
      | _ => exact hC.2.elim
    obtain rfl : i = j := Option.some.inj (hturn.symm.trans hcontinues.1)
    refine (hruntime hcontinues.2 hstep).imp_right ?_
    rintro ⟨result, hresult⟩
    exact ⟨result, List.mem_map_of_mem hresult⟩
  | receive receives free hstep =>
    exact .inl (hkept (by rw [(Runtimes.step_bus_bus hstep).2.1]))
  | bus background hbus hstep =>
    exact .inl (hkept (by rw [(Runtimes.step_bus_bus hstep).2.1]))

end

/-- `start()` and `stop()` never wait for what cannot happen: from every state that
the runtimes, their workers, receive tasks and observers can reach by permitted steps,
the operation in progress can return to its caller without any step of a receive task,
of another runtime or of the application. The driver, the kernel and the callbacks
answer as they like, but no receive task is created over an outstanding
acknowledgement. -/
theorem operation_returns {platform : Platform} {sole : ℕ}
    {configuration : ℕ → CanBus.Configuration} {s : State} {as : List Action} {es : List Event}
    (answers : State → Bool) (inputs : State → WorkerInput)
    (hC : (machine platform).Along (Permitted platform sole) (initial configuration) as)
    (hrun : (machine platform).run (initial configuration) as = some (s, es)) :
    ∃ bs t fs, (machine platform).Along
        (fun s a => Permitted platform sole s a ∧ Continues answers inputs s a) s bs ∧
      (machine platform).run s bs = some (t, fs) ∧ (∀ i, (t.runtime i).operation = .idle) ∧
        ∀ i, (s.runtime i).operation ≠ .idle →
          ∃ result, .system (.runtime i (.returned result)) ∈ fs := by
  have hs := run_workable hC hrun
  obtain ⟨bs, t, fs, hAlong, hreturned, ht, hfree⟩ := (machine platform).exists_run_of_rank
    (C := fun s a => Permitted platform sole s a ∧ Continues answers inputs s a)
    (P := fun s => s.Workable platform sole) (Q := fun s => s.system.turn = none) State.rank
    (fun s hs => (workable_advances answers inputs hs).imp_right
      fun ⟨a, t, es, hC, hstep, hlt⟩ => ⟨a, t, es, hC, hstep, step_workable hs hC.1 hstep, hlt⟩) hs
  refine ⟨bs, t, fs, hAlong, hreturned, fun i => ?_, fun i hbusy => ?_⟩
  · by_contra hbusy
    have hother := (ht.piped.staffed.agreed.turn i).mpr hbusy
    rw [hfree] at hother
    cases hother
  · have hturn := (hs.piped.staffed.agreed.turn i).mpr hbusy
    have hevent := (machine platform).run_invariant_along (h := [])
      (C := fun s a => Permitted platform sole s a ∧ Continues answers inputs s a)
      (I := fun h s => s.Workable platform sole ∧ (s.system.turn = some i ∨
        ∃ result, .system (.runtime i (.returned result)) ∈ h))
      (fun h s a t es hI hC hstep => ?_) ⟨hs, .inl hturn⟩ hAlong hreturned
    · refine hevent.2.resolve_left fun hturn => ?_
      rw [hfree] at hturn
      cases hturn
    · refine ⟨step_workable hI.1 hC.1 hstep, ?_⟩
      rcases hI.2 with hturn | ⟨result, hresult⟩
      · refine (step_returns hI.1 hturn hC hstep).imp_right ?_
        rintro ⟨result, hresult⟩
        exact ⟨result, List.mem_append_right h hresult⟩
      · exact .inr ⟨result, List.mem_append_left es hresult⟩

/-- A worker is inside `receive`, and a stop of its runtime begins. -/
def stopWhileReceivingSchedule : List Action :=
  beginReceiveSchedule ++ [.bus (.consumer true), .runtime 0 (.stop false)]

/-- With every driver call refused. -/
theorem operation_returns_stop : ∃ s es,
    (machine .host).run (initial fun _ => {}) stopWhileReceivingSchedule = some (s, es) ∧
      s.call.isSome = true ∧ ∃ bs t fs, (machine .host).run s bs = some (t, fs) ∧
        ∃ result, .system (.runtime 0 (.returned result)) ∈ fs := by
  have hobserved : ((machine .host).run (initial fun _ => {}) stopWhileReceivingSchedule).map
      (fun p => (p.1.call.isSome, (p.1.runtime 0).operation.isIdle)) = some (true, false) := by
    decide +kernel
  have hC : (machine .host).Along (Permitted .host 0) (initial fun _ => {})
      stopWhileReceivingSchedule := by
    decide +kernel
  obtain ⟨⟨s, es⟩, hrun, heq⟩ := Option.map_eq_some_iff.mp hobserved
  simp only [Prod.mk.injEq] at heq
  have hbusy : (s.runtime 0).operation ≠ .idle := by
    rw [Ne, ← OperationPc.isIdle_iff, heq.2]
    simp
  obtain ⟨bs, t, fs, -, hrest, -, hreturned⟩ :=
    operation_returns (fun _ => false) (fun _ => {}) hC hrun
  exact ⟨s, es, hrun, heq.1, bs, t, fs, hrest, hreturned 0 hbusy⟩

end Pipeline
end Telemetry
end VehicleCanCore

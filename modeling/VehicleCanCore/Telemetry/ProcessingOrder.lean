import VehicleCanCore.Telemetry.Delivery

/-!
# What is processed since the last start

The conveyor disposes of every frame once, but a worker that has been asked to stop
drops its last one. Such a worker receives no more, and the next one only begins
behind another start: within a session a dropped frame is the last of all.
-/

namespace VehicleCanCore

/-! ## A start that has emptied the ring -/

namespace CanBus

/-- The points of `start` behind the store that empties the ring. -/
def ControlPc.cleared : ControlPc → Bool
  | clearFrames _ .loadHead | clearFrames _ (.storeTail _) => false
  | clearFrames _ _ | setBusId _ | recordControllerReset | resetBaselines | setRequested
  | markTaskCreated | createTask | startSucceeded => true
  | _ => false

theorem ControlPc.starting_of_cleared {pc : ControlPc} (h : pc.cleared = true) :
    pc.phase = .starting := by
  cases pc <;> first | rfl | cases h

theorem controlStep_cleared {s : State} {g : Shared} {ok : Bool} {pc : ControlPc}
    {es : List Event} (h : controlStep s.shared ok s.control = some (g, pc, es))
    (hpc : pc.cleared = true) : s.control.cleared = true ∨ s.flushes (.control ok) = true := by
  generalize hcontrol : s.control = before at h
  cases before with
  | idle => cases h
  | clearFrames configuration clear =>
    cases clear with
    | loadHead =>
      cases h
      cases hpc
    | storeTail head => exact .inr (by simp [State.flushes, hcontrol])
    | _ => exact .inl rfl
  | setBusId | recordControllerReset | resetBaselines | setRequested | markTaskCreated
  | createTask | startSucceeded => exact .inl rfl
  | abortStart result pc =>
    simp only [controlStep] at h
    split at h <;> cases h <;> cases hpc
  | reconcile next pc =>
    simp only [controlStep] at h
    split at h <;> cases h
    · cases hpc
    · cases next with
      | stop =>
        simp only [afterReconcile] at hpc
        split_ifs at hpc <;> cases hpc
      | _ => cases hpc
  | beginStart | drainAvailable | drainTaskStopped | beginStopAfterTask | beginStop | drain =>
    simp only [controlStep] at h
    split at h <;> cases h <;> cases hpc
  | createTaskStopped | readInstalled =>
    simp only [controlStep] at h
    split_ifs at h <;> cases h <;> cases hpc
  | waitTask =>
    simp only [controlStep] at h
    split at h <;> split_ifs at h <;> cases h <;> cases hpc
  | install | twaiStart | uninstallAfterStart | twaiStopAfterTask | uninstallAfterTask | twaiStop
  | uninstall =>
    cases ok <;> cases h <;> cases hpc
  | readStarted | readOwned =>
    cases h
    split_ifs at hpc <;> cases hpc
  | _ =>
    cases h
    cases hpc

theorem step_cleared {s t : State} {a : Action} {es : List Event}
    (h : step s a = some (t, es)) (ht : t.control.cleared = true) :
    s.control.cleared = true ∨ s.flushes a = true := by
  cases step_cases h with
  | start | stop => cases ht
  | control hcontrol => exact controlStep_cleared hcontrol ht
  | _ => exact .inl ht

end CanBus

namespace Telemetry

open VehicleCanCore.Core Automata

/-- With a stop requested, a worker here does nothing but end. -/
def WorkerPc.leaving : WorkerPc → Bool
  | batchDone _ _ | exiting => true
  | _ => false

namespace Pipeline

/-! ## One event of the conveyor in a step -/

inductive Viewed (s t : State) : List (ConveyorEvent RawCanFrame Disposal) → Prop
  | quiet : Viewed s t []
  | entered (frame : RawCanFrame) : Viewed s t [.entered frame]
  | taken (frame : RawCanFrame) : Viewed s t [.taken frame]
  | flushed : Viewed s t [.flushed]
  | processed {i : ℕ} {budget : WorkBudget} {frame : RawCanFrame} {time : UInt64}
    (worker : s.worker i = some (.process budget frame time)) :
    Viewed s t [.disposed .processed frame]
  | discarded {i : ℕ} {budget : WorkBudget} {frame : RawCanFrame} {time : UInt64}
    (worker : s.worker i = some (.received budget (.frame frame) time))
    (left : t.worker i = some (.batchDone budget .continue))
    (stopped : (t.runtime i).stopRequested = true)
    (others : ∀ j, j ≠ i → t.runtime j = s.runtime j) :
    Viewed s t [.disposed .discarded frame]

section

variable {platform : Platform} {sole : ℕ} {s t : State}

theorem viewed_of_conveys {b : CanBus.State} {flushes : Bool} {es : List CanBus.Event}
    (h : CanBus.Conveys s.bus b flushes es) : Viewed s t (busView flushes es) := by
  cases h with
  | quiet _ _ flush moved =>
    rw [busView, flush, moved]
    exact .quiet
  | entered _ _ _ _ flush events =>
    rw [busView, flush, events]
    exact .entered _
  | taken _ _ _ flush events =>
    rw [busView, flush, events]
    exact .taken _
  | returned _ _ _ flush events =>
    rw [busView, flush, events]
    exact .quiet
  | flushed _ _ _ flush events =>
    rw [busView, flush, events]
    exact .flushed

theorem viewed_of_worker {i : ℕ} {r' : Runtime} {input : WorkerInput} {pc pc' : WorkerPc}
    {es : List Telemetry.Event} (hworker : s.worker i = some pc) (hreceives : pc.receives = false)
    (hwork : workerStep (s.runtime i) input pc = some (r', pc', es))
    (hself : t.runtime i = { r' with worker := some pc' })
    (hothers : ∀ j, j ≠ i → t.runtime j = s.runtime j) :
    Viewed s t (drops (s.runtime i).stopRequested pc ++ es.filterMap processed?) := by
  have hhandles := workerStep_handles hreceives hwork
  generalize drops (s.runtime i).stopRequested pc ++ es.filterMap processed? = view at hhandles ⊢
  cases hhandles with
  | kept => exact .quiet
  | processed => exact .processed hworker
  | discarded stopped =>
    refine .discarded hworker ?_ ?_ hothers
    · rw [State.worker, hself]
    · rw [hself]
      exact stopped

theorem step_viewed {a : Action} {es : List Event} (hs : s.Piped platform sole)
    (hC : Permitted platform sole s a) (h : step platform s a = some (t, es)) :
    Viewed s t (conveyed platform s a) := by
  rw [conveyed_of_step h]
  cases step_cases h with
  | taken receives answered hstep =>
    obtain ⟨r', pc', gs, hwork, hview, -⟩ := worker_step receives hstep
    cases hwork
    rw [hview, unseen, receives]
    exact .quiet
  | @runtime i a system fs elsewhere hstep =>
    obtain ⟨r, gs, hruntime, hview⟩ := conveyed_system hstep
    by_cases ha : ∃ input, a = .worker input
    · obtain ⟨input, rfl⟩ := ha
      obtain ⟨pc, -, -, hpc, -⟩ := step_worker hruntime
      have hworker : s.worker i = some pc := hpc
      have hreceives := elsewhere input rfl
      rw [hworker] at hreceives
      obtain ⟨r', pc', gs', hwork, hview', hself, hothers⟩ := worker_step hworker hstep
      rw [hview', unseen, hworker]
      exact viewed_of_worker hworker hreceives hwork hself hothers
    · have hother (input : WorkerInput) : a ≠ .worker input := fun heq => ha ⟨input, heq⟩
      rw [hview, step_unprocessed hother hruntime, List.append_nil]
      cases a with
      | worker input => exact absurd rfl (hother input)
      | _ => exact .quiet
  | receive => exact .quiet
  | bus _ hbus hstep =>
    rw [conveyed_bus hstep, unseen]
    exact viewed_of_conveys (hs.bus_step hC hbus).2.2

/-! ## Between the flush and the first frame -/

/-- A start has emptied the ring, and its worker is not there yet. -/
def State.Launched (s : State) : Prop := s.system.Early fun pc => pc.cleared = true

theorem State.Launched.vacant (hs : s.Piped platform sole) (h : s.Launched) (i : ℕ) :
    ¬ (s.runtime i).Working := by
  refine hs.staffed.vacant ?_ i
  rcases h with hcleared | hearly
  · exact .inl (CanBus.ControlPc.starting_of_cleared hcleared)
  · exact .inr hearly

theorem system_launched {a : CanBus.Action} {system : Runtimes.State} {es : List Runtimes.Event}
    (hs : s.Piped platform sole)
    (hstep : Runtimes.step platform s.system (.bus a) = some (system, es))
    (h : system.Early fun pc => pc.cleared = true) :
    s.Launched ∨ s.bus.flushes a = true := by
  cases Runtimes.step_cases hstep with
  | bus hsources =>
    have hsucceeded : (fun pc : CanBus.ControlPc => pc.cleared = true) .startSucceeded := rfl
    rcases Runtimes.early_of_bus hsucceeded hs.staffed.agreed hsources h with hcleared | hbefore
    · obtain ⟨-, -, fs, hbus⟩ := Runtimes.step_bus_bus hstep
      rcases CanBus.step_cleared hbus hcleared with hbefore | hflush
      · exact .inl (.inl hbefore)
      · exact .inr hflush
    · exact .inl hbefore

theorem step_launched {a : Action} {es : List Event} (hs : s.Piped platform sole)
    (h : step platform s a = some (t, es)) (ht : t.Launched) :
    s.Launched ∨ unseen s a = [.flushed] := by
  have hearlier {i : ℕ} {a : Telemetry.Action} {system : Runtimes.State}
      {fs : List Runtimes.Event}
      (hstep : Runtimes.step platform s.system (.runtime i a) = some (system, fs))
      (h : system.Early fun pc => pc.cleared = true) : s.Launched := by
    cases Runtimes.step_cases hstep with
    | runtime permitted hruntime served =>
      exact Runtimes.early_of_step (fun _ => CanBus.ControlPc.starting_of_cleared)
        hs.staffed.agreed hruntime served h
  cases step_cases h with
  | taken _ _ hstep | runtime _ hstep => exact .inl (hearlier hstep ht)
  | receive _ _ hstep =>
    rcases system_launched hs hstep ht with hbefore | hflush
    · exact .inl hbefore
    · cases hflush
  | bus _ _ hstep =>
    rcases system_launched hs hstep ht with hbefore | hflush
    · exact .inl hbefore
    · exact .inr (if_pos hflush)

/-! ## After the last frame -/

/-- Whoever still works has been asked to stop and receives no more. -/
def State.Ended (s : State) : Prop :=
  ∀ i pc, s.worker i = some pc → pc.isFinished = false →
    (s.runtime i).stopRequested = true ∧ pc.leaving = true

theorem leaving_step {r r' : Runtime} {input : WorkerInput} {pc pc' : WorkerPc}
    {es : List Telemetry.Event} (hstop : r.stopRequested = true) (hpc : pc.leaving = true)
    (hrunning : pc'.isFinished = false) (h : workerStep r input pc = some (r', pc', es)) :
    r'.stopRequested = true ∧ pc'.leaving = true := by
  cases pc with
  | batchDone =>
    simp only [workerStep, hstop, if_true] at h
    cases h
    exact ⟨hstop, rfl⟩
  | exiting =>
    cases h
    cases hrunning
  | _ => cases hpc

theorem step_ended {a : Action} {es : List Event} (hs : s.Piped platform sole)
    (hlaunched : ¬ s.Launched) (hended : s.Ended) (h : step platform s a = some (t, es)) :
    t.Ended := by
  refine step_workers (P := fun stop pc => stop = true ∧ pc.leaving = true) ?_ ?_ hs
    (fun i hcreate => hlaunched (.inr ⟨i, .inr ?_⟩)) hended h
  · rintro pc ⟨hstop, -⟩
    cases hstop
  · rintro r r' input pc pc' gs ⟨hstop, hleaving⟩ hrunning hwork
    exact leaving_step hstop hleaving hrunning hwork
  · have hcreate : (s.system.runtimes i).operation = .createWorker := hcreate
    rw [hcreate]
    rfl

end

/-! ## The account of a session -/

open ConveyorEvent

/-- What the frames have come to, given what has been seen of them. -/
structure Account (platform : Platform) (sole : ℕ) (h : List (ConveyorEvent RawCanFrame Disposal))
    (s : State) : Prop where
  piped : s.Piped platform sole
  conveyed : ∃ hand, (Automata.conveyor RawCanFrame Disposal CanBus.kQueueCapacity).accept {} h =
    some ⟨s.bus.contents, hand⟩ ∧ s.Hand hand
  valid : ∀ frame ∈ enteredItems h, frame.isValid = true
  fresh : s.Launched → disposedItems (session h) = []
  order : disposedItems (session h) =
    disposedAs .processed (session h) ++ disposedAs .discarded (session h)
  last : (disposedAs .discarded (session h)).length ≤ 1
  ended : disposedAs .discarded (session h) ≠ [] → s.Ended

section

variable {platform : Platform} {sole : ℕ} {s t : State}
  {h : List (ConveyorEvent RawCanFrame Disposal)}

/-- While a worker still has a frame, none has been dropped in this session. -/
theorem Account.undropped (hs : Account platform sole h s) {i : ℕ} {pc : WorkerPc}
    (hworker : s.worker i = some pc) (hrunning : pc.isFinished = false)
    (hpc : pc.leaving = false) : disposedAs .discarded (session h) = [] := by
  by_contra hdropped
  obtain ⟨-, hleaving⟩ := hs.ended hdropped i pc hworker hrunning
  simp [hpc] at hleaving

theorem step_account {a : Action} {es : List Event} (hs : Account platform sole h s)
    (hC : Permitted platform sole s a) (hstep : step platform s a = some (t, es)) :
    Account platform sole (h ++ conveyed platform s a) t := by
  have hpiped := step_piped hs.piped hC hstep
  obtain ⟨hand, haccept, hhand⟩ := hs.conveyed
  obtain ⟨hand', hhand', hforward, hentered⟩ := step_forwards hs.piped hC hstep hand hhand
  have hconveyed : ∃ hand', (Automata.conveyor RawCanFrame Disposal CanBus.kQueueCapacity).accept {}
      (h ++ conveyed platform s a) = some ⟨t.bus.contents, hand'⟩ ∧ t.Hand hand' :=
    ⟨hand', (Acceptor.accept_append_eq_some _).mpr ⟨_, haccept, hforward⟩, hhand'⟩
  have hvalid : ∀ frame ∈ enteredItems (h ++ conveyed platform s a), frame.isValid = true := by
    intro frame hframe
    rw [enteredItems, List.filterMap_append, List.mem_append] at hframe
    exact hframe.elim (hs.valid frame) (hentered frame)
  have hended (hdropped : disposedAs .discarded (session h) ≠ []) : t.Ended := by
    refine step_ended hs.piped (fun hlaunched => ?_) (hs.ended hdropped) hstep
    have hnone := hs.fresh hlaunched
    rw [hs.order, List.append_eq_nil_iff] at hnone
    exact hdropped hnone.2
  have hearlier (hlaunched : t.Launched) : s.Launched ∨ unseen s a = [.flushed] :=
    step_launched hs.piped hstep hlaunched
  have hview := conveyed_of_step hstep
  have hviewed := step_viewed hs.piped hC hstep
  generalize conveyed platform s a = view at hconveyed hvalid hview hviewed ⊢
  have hfresh (hnoflush : ConveyorEvent.flushed ∉ view) (hlaunched : t.Launched) : s.Launched := by
    rcases hearlier hlaunched with hbefore | hflush
    · exact hbefore
    · rw [hview, hflush] at hnoflush
      simp at hnoflush
  cases hviewed with
  | quiet =>
    rw [List.append_nil] at hconveyed hvalid ⊢
    exact ⟨hpiped, hconveyed, hvalid, fun hlaunched => hs.fresh (hfresh (by simp) hlaunched),
      hs.order, hs.last, hended⟩
  | entered frame | taken frame =>
    refine ⟨hpiped, hconveyed, hvalid, fun hlaunched => ?_, ?_, ?_, fun hdropped => ?_⟩
    · rw [(disposed_kept rfl rfl).1]
      exact hs.fresh (hfresh (by simp) hlaunched)
    · rw [(disposed_kept rfl rfl).1, (disposed_kept rfl rfl).2, (disposed_kept rfl rfl).2]
      exact hs.order
    · rw [(disposed_kept rfl rfl).2]
      exact hs.last
    · rw [(disposed_kept rfl rfl).2] at hdropped
      exact hended hdropped
  | flushed =>
    have hsession := session_flushed h
    refine ⟨hpiped, hconveyed, hvalid, fun _ => ?_, ?_, ?_, fun hdropped => ?_⟩
    · rw [hsession]
      rfl
    · rw [hsession]
      rfl
    · simp [hsession, disposedAs]
    · simp [hsession, disposedAs] at hdropped
  | @processed i budget frame time worker =>
    obtain ⟨hall, has⟩ := disposed_concat h Disposal.processed frame
    have hnone := hs.undropped worker rfl rfl
    have hworking : (s.runtime i).Working := ⟨_, worker, rfl⟩
    refine ⟨hpiped, hconveyed, hvalid, fun hlaunched => ?_, ?_, ?_, fun hdropped => ?_⟩
    · exact absurd hworking ((hfresh (by simp) hlaunched).vacant hs.piped i)
    · rw [hall, has, has, hs.order, hnone]
      simp
    · rw [has, hnone]
      simp
    · rw [has, hnone] at hdropped
      simp at hdropped
  | @discarded i budget frame time worker left stopped others =>
    obtain ⟨hall, has⟩ := disposed_concat h Disposal.discarded frame
    have hnone := hs.undropped worker rfl rfl
    have hworking : (s.runtime i).Working := ⟨_, worker, rfl⟩
    refine ⟨hpiped, hconveyed, hvalid, fun hlaunched => ?_, ?_, ?_, fun _ j pc hpc hrunning => ?_⟩
    · exact absurd hworking ((hfresh (by simp) hlaunched).vacant hs.piped i)
    · rw [hall, has, has, hs.order, hnone]
      simp
    · rw [has, hnone]
      simp
    · obtain rfl := only_after hs.piped worker rfl others j ⟨pc, hpc, hrunning⟩
      rw [left] at hpc
      cases hpc
      exact ⟨stopped, rfl⟩

theorem initial_account (platform : Platform) (sole : ℕ)
    (configuration : ℕ → CanBus.Configuration) :
    Account platform sole [] (initial configuration) where
  piped := initial_piped platform sole configuration
  conveyed := by
    have hempty : (initial configuration).bus.contents = [] :=
      congrArg Conveyor.waiting CanBus.boot_conveyor
    refine ⟨none, by rw [hempty]; rfl, (hand_working rfl).mpr fun frame => ?_⟩
    simp [initial, State.worker, State.runtime, Runtimes.initial]
  valid := by simp [enteredItems]
  fresh _ := rfl
  order := rfl
  last := by simp [disposedAs]
  ended hdropped := absurd rfl hdropped

theorem State.Ended.hand_eq_none {hand : Option RawCanFrame} (hs : s.Piped platform sole)
    (hended : s.Ended) (h : s.Hand hand) : hand = none := by
  have hcall : s.call = none := by
    by_contra hsome
    obtain ⟨call, hcall⟩ := Option.ne_none_iff_exists'.mp hsome
    obtain ⟨budget, hworker⟩ := hs.coupled.calling call hcall
    obtain ⟨-, hleaving⟩ := hended _ _ hworker rfl
    cases hleaving
  rw [hand_working hcall] at h
  by_contra hsome
  obtain ⟨frame, rfl⟩ := Option.ne_none_iff_exists'.mp hsome
  obtain ⟨i, hhand⟩ := (h frame).mp rfl
  obtain ⟨pc, hworker, hheld⟩ := Option.bind_eq_some_iff.mp hhand
  obtain ⟨-, hleaving⟩ := hended i pc hworker (hand_of_finished hheld)
  cases pc with
  | batchDone | exiting => cases hheld
  | _ => cases hleaving

end

/-- From the driver to the processor, in every permitted order of the operation in
progress, workers, tasks and observers, and whatever the driver answers: the frames
processed since a start last cleared the ring are the first of those accepted since
then, each once and in order. At most one frame, in hand or dropped by a worker that
is to stop, separates them from the frames that still wait. -/
theorem processed_in_order {platform : Platform} {sole : ℕ}
    {configuration : ℕ → CanBus.Configuration} {s : State} {as : List Action} {es : List Event}
    (hC : (machine platform).Along (Permitted platform sole) (initial configuration) as)
    (hrun : (machine platform).run (initial configuration) as = some (s, es)) :
    let since := session ((machine platform).history (conveyed platform) (initial configuration) as)
    ∃ last : Option RawCanFrame,
      disposedAs .processed since ++ last.toList ++ s.bus.contents = enteredItems since ∧
      s.bus.contents.length ≤ CanBus.kQueueCapacity ∧
      (∀ frame ∈ enteredItems since, frame.isValid = true) ∧
      ∀ frame, last = some frame → s.Hand (some frame) ∨ disposedAs .discarded since = [frame] := by
  have hs : Account platform sole
      ((machine platform).history (conveyed platform) (initial configuration) as) s := by
    simpa using (machine platform).run_history_along (h := [])
      (fun h s a t es hs hC hstep => step_account hs hC hstep)
      (initial_account platform sole configuration) hC hrun
  obtain ⟨hand, haccept, hhand⟩ := hs.conveyed
  obtain ⟨horder, hlen⟩ := conveyor_session haccept
  rw [hs.order] at horder
  have hvalid : ∀ frame ∈ enteredItems (session
      ((machine platform).history (conveyed platform) (initial configuration) as)),
      frame.isValid = true := fun frame hframe => hs.valid frame (entered_of_session hframe)
  have hlast := hs.last
  generalize hdropped : disposedAs Disposal.discarded (session
    ((machine platform).history (conveyed platform) (initial configuration) as)) = dropped at *
  cases dropped with
  | nil =>
    refine ⟨hand, by simpa using horder, hlen, hvalid, ?_⟩
    rintro frame rfl
    exact .inl hhand
  | cons frame rest =>
    obtain rfl : rest = [] := by simpa using hlast
    have hended : s.Ended := hs.ended (by simp [hdropped])
    obtain rfl := hended.hand_eq_none hs.piped hhand
    refine ⟨some frame, by simpa using horder, hlen, hvalid, ?_⟩
    rintro _ ⟨⟩
    exact .inr hdropped

def receiveSchedule : List Action := .receive 0 :: List.replicate 9 (.bus (.consumer true))

/-- Of three frames the worker of runtime 0 processes one and has received another
when `stop()` asks it to stop. -/
def droppedFrameSchedule : List Action :=
  let worker (n : ℕ) : List Action := List.replicate n (.runtime 0 (.worker {}))
  (Runtimes.launchSchedule 0 37).map ofSystem ++
    (CanBus.messageSchedule 0 5 17 ++ CanBus.messageSchedule 0 6 17 ++
      CanBus.messageSchedule 0 7 17).map .bus ++
    worker 2 ++ receiveSchedule ++ worker 10 ++ receiveSchedule ++
    [.runtime 0 (.stop false)] ++ List.replicate 8 (.runtime 0 (.operation {})) ++ worker 2

theorem processed_in_order_dropped_frame : ∃ s es,
    (machine .host).run (initial fun _ => {}) droppedFrameSchedule = some (s, es) ∧
      s.bus.contents.map (·.identifier) = [7] ∧
      let since := session ((machine .host).history (conveyed .host) (initial fun _ => {})
        droppedFrameSchedule)
      ∃ last : Option RawCanFrame,
        disposedAs .processed since ++ last.toList ++ s.bus.contents = enteredItems since := by
  have hobserved : ((machine .host).run (initial fun _ => {}) droppedFrameSchedule).map (fun p =>
      p.1.bus.contents.map (·.identifier)) = some [7] := by decide +kernel
  have hC : (machine .host).Along (Permitted .host 0) (initial fun _ => {})
      droppedFrameSchedule := by
    decide +kernel
  obtain ⟨⟨s, es⟩, hrun, hcontents⟩ := Option.map_eq_some_iff.mp hobserved
  obtain ⟨last, horder, -⟩ := processed_in_order hC hrun
  exact ⟨s, es, hrun, hcontents, last, horder⟩

end Pipeline
end Telemetry
end VehicleCanCore

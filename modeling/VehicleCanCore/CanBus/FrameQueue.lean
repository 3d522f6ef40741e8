import VehicleCanCore.Automata.Conveyor
import VehicleCanCore.CanBus.Calls
import VehicleCanCore.CanBus.TaskExclusivity
import VehicleCanCore.CanBus.Wakeup

/-!
# The frame queue of the acquisition across starts and stops

The ring is filled by whichever receive task is alive, emptied by the callers of
`receive`, and cleared by every start. Its single-producer single-consumer contract
is not local to the ring: that no two tasks push is a matter of their creation,
that `clear` meets no `push` a matter of the ownership flag, and that it meets no
`pop` a matter of the caller. Under these three the acquisition conveys frames.
-/

namespace VehicleCanCore
namespace CanBus

open VehicleCanCore.Core Automata LifecycleController Shared

/-! ## What moves frames -/

/-- Frames that enter the ring and frames that `pop` releases. -/
def Event.moved? {δ : Type} : Event → Option (ConveyorEvent RawCanFrame δ)
  | .ring (.published frame) => some (.entered frame)
  | .ring (.delivered frame) => some (.taken frame)
  | _ => none

/-- A `receive` call that returns a frame. -/
def Event.returned? : Event → Option (ConveyorEvent RawCanFrame Unit)
  | .received .ok (some frame) => some (.disposed () frame)
  | _ => none

def State.flushes (s : State) : Action → Bool
  | .control _ => match s.control with
    | .clearFrames _ (.storeTail _) => true
    | _ => false
  | _ => false

def conveyed (s : State) (a : Action) : List (ConveyorEvent RawCanFrame Unit) :=
  (if s.flushes a then [.flushed] else []) ++
    (step s a).elim [] fun p => p.2.filterMap Event.moved? ++ p.2.filterMap Event.returned?

/-- The frame that a `receive` call has taken out of the ring and not returned yet. -/
def ReceivePc.hand : ReceivePc → Option RawCanFrame
  | pop (.countDelivered frame) => some frame
  | pop (.done frame) => frame
  | _ => none

def State.contents (s : State) : List RawCanFrame := s.shared.frames.contents

def State.hand (s : State) : Option RawCanFrame := s.consumer.hand

/-- What a step does to the frames, and how it shows. -/
inductive Conveys (s t : State) (flushes : Bool) (es : List Event) : Prop
  | quiet (contents : t.contents = s.contents) (hand : t.hand = s.hand) (flush : flushes = false)
    (moved : ∀ {δ : Type}, es.filterMap (Event.moved? (δ := δ)) = [])
    (returned : es.filterMap Event.returned? = [])
  | entered {frame : RawCanFrame} (room : s.contents.length < kQueueCapacity)
    (contents : t.contents = s.contents ++ [frame]) (hand : t.hand = s.hand)
    (valid : frame.isValid = true) (flush : flushes = false)
    (events : es = [.ring (.published frame)])
  | taken {frame : RawCanFrame} (contents : s.contents = frame :: t.contents)
    (before : s.hand = none) (after : t.hand = some frame) (flush : flushes = false)
    (events : es = [.ring (.delivered frame)])
  | returned {frame : RawCanFrame} (contents : t.contents = s.contents)
    (before : s.hand = some frame) (after : t.hand = none) (flush : flushes = false)
    (events : es = [.received .ok (some frame)])
  | flushed (contents : t.contents = []) (before : s.consumer = .idle) (after : t.consumer = .idle)
    (flush : flushes = true) (events : es = [])

/-! ## The invariant -/

def PushPc.offered : FrameRing.PushPc 32 → Option RawCanFrame
  | .countReceived frame | .loadHead frame | .loadTail frame _ | .writeSlot frame _ _
  | .storeHead frame _ _ => some frame
  | _ => none

/-- Both sides of the ring and a start that is about to clear it know where its ends are. -/
structure State.Queued (s : State) : Prop where
  bounded : s.shared.frames.held ≤ kQueueCapacity
  producer : ∀ (i : ℕ) q, s.tasks[i]? = some (.push q) → q.Sound s.shared.frames
  offered : ∀ (i : ℕ) q frame, s.tasks[i]? = some (.push q) → PushPc.offered q = some frame →
    frame.isValid = true
  consumer : ∀ q, s.consumer = .pop q → q.Sound s.shared.frames
  clearing : ∀ configuration head, s.control = .clearFrames configuration (.storeTail head) →
    head = s.shared.frames.head

/-- Nobody receives while a start is in progress. -/
def State.Away (s : State) : Prop := s.control.phase = .starting → s.consumer = .idle

/-! ## The receive tasks -/

theorem moved_ring_eq_nil {es : List FrameRing.Event}
    (h : es.filterMap FrameRing.Event.queue? = []) {δ : Type} :
    (es.map Event.ring).filterMap (Event.moved? (δ := δ)) = [] := by
  rw [List.filterMap_map, List.filterMap_eq_nil_iff]
  intro e he
  have hquiet := List.filterMap_eq_nil_iff.mp h e he
  cases e <;> simp_all [FrameRing.Event.queue?, Event.moved?]

theorem returned_ring_eq_nil (es : List FrameRing.Event) :
    (es.map Event.ring).filterMap Event.returned? = [] := by
  rw [List.filterMap_map, List.filterMap_eq_nil_iff]
  intro e _
  rfl

theorem pushStep_offered {m m' : FrameRing.Memory queueCapacity} {spurious : Bool}
    {pc pc' : FrameRing.PushPc 32} {es : List FrameRing.Event} {frame : RawCanFrame}
    (h : FrameRing.pushStep m spurious pc = some (m', pc', es))
    (hframe : PushPc.offered pc' = some frame) : PushPc.offered pc = some frame := by
  cases pc with
  | loadTail f head =>
    simp only [FrameRing.pushStep] at h
    split_ifs at h <;> cases h
    · cases hframe
    · exact hframe
  | loadWatermark depth =>
    simp only [FrameRing.pushStep, FrameRing.PushPc.afterWatermark] at h
    split_ifs at h <;> cases h <;> cases hframe
  | raiseWatermark depth watermark =>
    simp only [FrameRing.pushStep, FrameRing.PushPc.afterWatermark] at h
    split_ifs at h <;> cases h <;> cases hframe
  | done => cases h
  | countReceived | loadHead | writeSlot =>
    cases h
    exact hframe
  | _ =>
    cases h
    cases hframe

theorem taskStep_queue {g g' : Shared} {input : TaskInput} {pc pc' : TaskPc} {es : List Event}
    (h : taskStep g input pc = some (g', pc', es)) :
    (∃ q m q' fs, pc = .push q ∧ FrameRing.pushStep g.frames input.spurious q = some (m, q', fs) ∧
        g' = { g with frames := m } ∧ pc' = .push q' ∧ es = fs.map .ring) ∨
      (g.frames.SameQueue g'.frames ∧ (∀ {δ : Type}, es.filterMap (Event.moved? (δ := δ)) = []) ∧
        es.filterMap Event.returned? = [] ∧
        ∀ q, pc' = .push q → ∃ frame, q = .countReceived frame ∧ frame.isValid = true) := by
  have hsame : g.frames.SameQueue g.frames := FrameRing.Memory.sameQueue_refl _
  cases pc with
  | push q =>
    cases q with
    | done accepted =>
      cases h
      refine .inr ⟨hsame, rfl, rfl, fun q hq => ?_⟩
      cases accepted <;> cases hq
    | _ =>
      simp only [taskStep, Option.map_eq_some_iff, Prod.exists] at h
      obtain ⟨m, q', fs, hpush, heq⟩ := h
      cases heq
      exact .inl ⟨_, m, q', fs, rfl, hpush, rfl, rfl, rfl⟩
  | receive =>
    right
    simp only [taskStep] at h
    split at h <;> cases h
    · refine ⟨hsame, rfl, rfl, fun q hq => ?_⟩
      split_ifs at hq with hvalid
      cases hq
      exact ⟨_, rfl, hvalid⟩
    all_goals exact ⟨hsame, rfl, rfl, by simp⟩
  | loopHead =>
    cases h
    refine .inr ⟨hsame, rfl, rfl, fun q hq => ?_⟩
    split_ifs at hq
  | readStatus | readAlerts =>
    right
    simp only [taskStep] at h
    split at h <;> cases h <;> exact ⟨hsame, rfl, rfl, by simp⟩
  | latchFault pc =>
    right
    simp only [taskStep] at h
    split at h <;> cases h
    · exact ⟨hsame, rfl, rfl, by simp⟩
    · refine ⟨hsame, rfl, rfl, fun q hq => ?_⟩
      split_ifs at hq
  | deleted => cases h
  | recordInvalid | recordBusErrors | recordRxMissed | recordBusOff =>
    cases h
    exact .inr ⟨FrameRing.Memory.sameQueue_fetchAdd _ _ _, rfl, rfl, by simp⟩
  | _ =>
    cases h
    exact .inr ⟨hsame, rfl, rfl, by simp⟩

theorem contents_of_sameQueue {s t : State} (h : s.shared.frames.SameQueue t.shared.frames) :
    t.contents = s.contents := h.contents_eq

theorem length_contents (s : State) : s.contents.length = s.shared.frames.held :=
  FrameRing.Memory.length_contents _

theorem State.Queued.sameQueue {s t : State} (h : s.Queued)
    (hq : s.shared.frames.SameQueue t.shared.frames)
    (htasks : ∀ (i : ℕ) q, t.tasks[i]? = some (.push q) →
      s.tasks[i]? = some (.push q) ∨ ∃ frame, q = .countReceived frame ∧ frame.isValid = true)
    (hconsumer : ∀ q, t.consumer = .pop q → s.consumer = .pop q ∨ q = .loadTail)
    (hclearing : ∀ configuration head, t.control = .clearFrames configuration (.storeTail head) →
      s.control = .clearFrames configuration (.storeTail head) ∨ head = s.shared.frames.head) :
    t.Queued where
  bounded := hq.held_eq ▸ h.bounded
  producer i q hi := by
    rcases htasks i q hi with hi | ⟨frame, rfl, -⟩
    · exact (h.producer i q hi).sameQueue hq
    · trivial
  offered i q frame hi hframe := by
    rcases htasks i q hi with hi | ⟨frame', rfl, hvalid⟩
    · exact h.offered i q frame hi hframe
    · obtain rfl : frame' = frame := by simpa [PushPc.offered] using hframe
      exact hvalid
  consumer q hc := by
    rcases hconsumer q hc with hc | rfl
    · exact (h.consumer q hc).sameQueue hq
    · trivial
  clearing configuration head hcontrol := by
    rw [hq.2.1]
    rcases hclearing configuration head hcontrol with hcontrol | hhead
    · exact h.clearing configuration head hcontrol
    · exact hhead

/-- A task that pushes is the only one that could, and no start is clearing. -/
theorem State.TaskExclusive.pushing {s : State} {i : ℕ} {q : FrameRing.PushPc 32}
    (h : s.TaskExclusive) (howned : s.control.Owned s.shared)
    (hi : s.tasks[i]? = some (.push q)) :
    (∀ (j : ℕ) q', s.tasks[j]? = some (.push q') → j = i) ∧
      ∀ configuration pc, s.control ≠ .clearFrames configuration pc := by
  have hlive : s.LiveAt i := ⟨_, hi, trivial⟩
  refine ⟨fun j q' hj => h.unique j i ⟨_, hj, trivial⟩ hlive, fun configuration pc hcontrol => ?_⟩
  rw [hcontrol] at howned
  exact howned.2.not_owned (h.owned i hlive)

theorem push_conveys {s t : State} {i : ℕ} {q q' : FrameRing.PushPc 32} {spurious : Bool}
    {m : FrameRing.Memory queueCapacity} {fs : List FrameRing.Event} (h : s.Queued)
    (hexclusive : s.TaskExclusive) (howned : s.control.Owned s.shared)
    (hi : s.tasks[i]? = some (.push q))
    (hpush : FrameRing.pushStep s.shared.frames spurious q = some (m, q', fs))
    (hframes : t.shared.frames = m) (htasks : t.tasks = s.tasks.set i (.push q'))
    (hcontrol : t.control = s.control) (hconsumer : t.consumer = s.consumer) :
    t.Queued ∧ Conveys s t false (fs.map .ring) := by
  obtain ⟨honly, hnoclear⟩ := hexclusive.pushing howned hi
  obtain ⟨hheld, hsound, hothers, -⟩ :=
    FrameRing.pushStep_refines queueCapacity_dvd h.bounded (h.producer i q hi) hpush
  have hlt : i < s.tasks.length := (List.getElem?_eq_some_iff.mp hi).1
  have hpushing (j : ℕ) (r : FrameRing.PushPc 32) (hj : t.tasks[j]? = some (.push r)) : r = q' := by
    rw [htasks, List.getElem?_set] at hj
    split_ifs at hj with hij
    · simpa using hj.symm
    · exact absurd (honly j r hj).symm hij
  refine ⟨⟨hframes ▸ hheld, ?_, ?_, ?_, ?_⟩, ?_⟩
  · intro j r hj
    rw [hpushing j r hj, hframes]
    exact hsound
  · intro j r frame hj hframe
    rw [hpushing j r hj] at hframe
    exact h.offered i q frame hi (pushStep_offered hpush hframe)
  · intro r hr
    rw [hframes]
    exact hothers r (h.consumer r (hconsumer ▸ hr))
  · intro configuration head hclear
    exact absurd (hcontrol ▸ hclear) (hnoclear configuration _)
  · have hhand : t.hand = s.hand := by rw [State.hand, hconsumer, State.hand]
    rcases FrameRing.pushStep_cases (h.producer i q hi) hpush with ⟨hq, hes, -⟩ |
      ⟨frame, tail, rfl, hfree, rfl, rfl, rfl⟩ |
      ⟨frame, tail, depth, rfl, hfree, hframe, rfl, rfl, rfl⟩
    · exact .quiet (contents_of_sameQueue (hframes ▸ hq)) hhand rfl (moved_ring_eq_nil hes)
        (returned_ring_eq_nil fs)
    · refine .quiet ?_ hhand rfl rfl rfl
      rw [State.contents, hframes]
      exact s.shared.frames.contents_storeSlot queueCapacity_dvd hfree frame
    · refine .entered (by rwa [length_contents]) ?_ hhand (h.offered i _ frame hi rfl) rfl rfl
      rw [State.contents, hframes, ← hframe]
      exact s.shared.frames.contents_advanceHead hfree

theorem task_conveys {s t : State} {i : ℕ} {input : TaskInput} {pc pc' : TaskPc} {es : List Event}
    (h : s.Queued) (hexclusive : s.TaskExclusive) (howned : s.control.Owned s.shared)
    (hi : s.tasks[i]? = some pc) (hstep : taskStep s.shared input pc = some (t.shared, pc', es))
    (htasks : t.tasks = s.tasks.set i pc') (hcontrol : t.control = s.control)
    (hconsumer : t.consumer = s.consumer) : t.Queued ∧ Conveys s t false es := by
  rcases taskStep_queue hstep with ⟨q, m, q', fs, rfl, hpush, hshared, rfl, rfl⟩ |
    ⟨hq, hmoved, hreturned, hnew⟩
  · exact push_conveys h hexclusive howned hi hpush (by rw [hshared]) htasks hcontrol hconsumer
  · refine ⟨h.sameQueue hq (fun j r hj => ?_) (fun r hr => .inl (hconsumer ▸ hr))
      (fun configuration head hclear => .inl (hcontrol ▸ hclear)),
      .quiet (contents_of_sameQueue hq) (by rw [State.hand, hconsumer, State.hand]) rfl hmoved
        hreturned⟩
    rw [htasks, List.getElem?_set] at hj
    split_ifs at hj with hij hlt
    · exact .inr (hnew r (by simpa using hj))
    · exact .inl hj

/-! ## The consumer -/

theorem returned_without_frame (result : Result) :
    Event.returned? (.received result none) = none := by
  cases result <;> rfl

theorem popStep_hand {m m' : FrameRing.Memory queueCapacity} {pc pc' : FrameRing.PopPc 32}
    {es : List FrameRing.Event} (h : FrameRing.popStep m pc = some (m', pc', es))
    (hquiet : es.filterMap FrameRing.Event.queue? = []) :
    (ReceivePc.pop pc').hand = (ReceivePc.pop pc).hand := by
  cases pc with
  | loadHead tail =>
    simp only [FrameRing.popStep] at h
    split_ifs at h <;> cases h <;> rfl
  | storeTail tail frame =>
    cases h
    simp [FrameRing.Event.queue?] at hquiet
  | done => cases h
  | _ =>
    cases h
    rfl

theorem consumer_conveys {s t : State} {ok : Bool} {es : List Event} (h : s.Queued)
    (hstep : receiveStep s.shared ok s.consumer = some (t.shared, t.consumer, es))
    (htasks : t.tasks = s.tasks) (hcontrol : t.control = s.control) :
    t.Queued ∧ Conveys s t false es := by
  have hkept {t : State} (hq : s.shared.frames.SameQueue t.shared.frames)
      (htasks : t.tasks = s.tasks) (hcontrol : t.control = s.control)
      (hpops : ∀ q, t.consumer = .pop q → q = .loadTail) : t.Queued :=
    h.sameQueue hq (fun j r hj => .inl (htasks ▸ hj)) (fun r hr => .inr (hpops r hr))
      fun configuration head hclear => .inl (hcontrol ▸ hclear)
  have hsame : s.shared.frames.SameQueue s.shared.frames := FrameRing.Memory.sameQueue_refl _
  generalize hc : s.consumer = c at hstep
  generalize hg : t.shared = g' at hstep
  generalize hc' : t.consumer = c' at hstep
  have hquiet (hq : s.shared.frames.SameQueue g'.frames) (hpops : ∀ q, c' = .pop q → q = .loadTail)
      (hhand : c'.hand = c.hand) {fs : List Event}
      (hmoved : ∀ {δ : Type}, fs.filterMap (Event.moved? (δ := δ)) = [])
      (hreturned : fs.filterMap Event.returned? = []) : t.Queued ∧ Conveys s t false fs := by
    rw [← hg] at hq
    exact ⟨hkept hq htasks hcontrol (hc' ▸ hpops), .quiet (contents_of_sameQueue hq)
      (by rw [State.hand, hc', State.hand, hc, hhand]) rfl hmoved hreturned⟩
  cases c with
  | idle => cases hstep
  | enter timeoutMs | woken =>
    simp only [receiveStep] at hstep
    split at hstep <;> cases hstep
    · exact hquiet hsame (by simp) rfl rfl (by simp [returned_without_frame])
    · exact hquiet hsame (by simp) rfl rfl rfl
  | expired =>
    cases hstep
    exact hquiet hsame (by simp) rfl rfl (by simp [returned_without_frame])
  | wait timeoutMs =>
    simp only [receiveStep] at hstep
    split at hstep <;> split_ifs at hstep <;> cases hstep
    · have htake : s.shared.takeAvailable = some g' := ‹_›
      refine hquiet ?_ (by simp) rfl rfl rfl
      rw [(takeAvailable_frames htake).1]
      exact hsame
    · exact hquiet hsame (by simp) rfl rfl rfl
  | pop q =>
    cases q with
    | done frame =>
      cases frame with
      | none =>
        cases hstep
        exact hquiet hsame (by simp) rfl rfl rfl
      | some frame =>
        cases hstep
        have hq : s.shared.frames.SameQueue t.shared.frames := hg ▸ hsame
        refine ⟨hkept hq htasks hcontrol (by simp [hc']), .returned (contents_of_sameQueue hq) ?_ ?_
          rfl rfl⟩
        · rw [State.hand, hc]
          rfl
        · rw [State.hand, hc']
          rfl
    | _ =>
      have hpopSound := h.consumer _ hc
      simp only [receiveStep, Option.map_eq_some_iff, Prod.exists] at hstep
      obtain ⟨m, q', fs, hpop, heq⟩ := hstep
      cases heq
      obtain ⟨hheld, hsound, hothers, -⟩ := FrameRing.popStep_refines h.bounded hpopSound hpop
      have hframes : t.shared.frames = m := by rw [hg]
      refine ⟨⟨hframes ▸ hheld, fun i r hi => ?_, fun i r frame hi => ?_, fun r hr => ?_,
        fun configuration head hclear => ?_⟩, ?_⟩
      · rw [hframes]
        exact hothers r (h.producer i r (htasks ▸ hi))
      · exact h.offered i r frame (htasks ▸ hi)
      · rw [hframes]
        obtain rfl : q' = r := by simpa [hc'] using hr
        exact hsound
      · rw [hframes]
        rcases FrameRing.popStep_cases hpopSound hpop with ⟨hq, -⟩ | ⟨_, -, -, -, rfl, -⟩
        · exact (h.clearing configuration head (hcontrol ▸ hclear)).trans hq.2.1.symm
        · exact h.clearing configuration head (hcontrol ▸ hclear)
      · rcases FrameRing.popStep_cases hpopSound hpop with ⟨hq, hes, -⟩ |
          ⟨frame, heq, hpos, hframe, hm, rfl, rfl⟩
        · refine .quiet (contents_of_sameQueue (hframes ▸ hq)) ?_ rfl (moved_ring_eq_nil hes)
            (returned_ring_eq_nil fs)
          rw [State.hand, hc', State.hand, hc, popStep_hand hpop hes]
        · refine .taken ?_ (by rw [State.hand, hc, heq]; rfl) (by rw [State.hand, hc']; rfl) rfl rfl
          rw [State.contents, State.contents, hframes, hm, ← hframe]
          exact s.shared.frames.contents_advanceTail hpos

/-! ## The lifecycle calls -/

theorem afterReconcile_queue (next : AfterReconcile) :
    (∀ configuration pc, (afterReconcile next).1 ≠ .clearFrames configuration pc) ∧
      (∀ {δ : Type}, (afterReconcile next).2.filterMap (Event.moved? (δ := δ)) = []) ∧
      (afterReconcile next).2.filterMap Event.returned? = [] := by
  cases next with
  | stop driverStopped taskStopped driverUninstalled =>
    simp only [afterReconcile]
    split_ifs <;> exact ⟨by simp, rfl, rfl⟩
  | _ => exact ⟨by simp [afterReconcile], rfl, rfl⟩

theorem controlStep_queue {g g' : Shared} {ok : Bool} {pc pc' : ControlPc} {es : List Event}
    (h : controlStep g ok pc = some (g', pc', es)) :
    (∃ configuration head, pc = .clearFrames configuration (.storeTail head) ∧
        g'.frames = { g.frames with tail := head } ∧
        pc' = .clearFrames configuration (.snapshot (.depth .snapshotAndReset .tailBefore)) ∧
        es = []) ∨
      ((∀ configuration head, pc ≠ .clearFrames configuration (.storeTail head)) ∧
        g.frames.SameQueue g'.frames ∧
        (∀ configuration head, pc' = .clearFrames configuration (.storeTail head) →
          head = g.frames.head) ∧
        (∀ {δ : Type}, es.filterMap (Event.moved? (δ := δ)) = []) ∧
        es.filterMap Event.returned? = []) := by
  have hsame : g.frames.SameQueue g.frames := FrameRing.Memory.sameQueue_refl _
  cases pc with
  | idle => cases h
  | clearFrames configuration pc =>
    cases pc with
    | loadHead =>
      cases h
      exact .inr ⟨by simp, hsame, by simp, rfl, rfl⟩
    | storeTail head =>
      cases h
      exact .inl ⟨configuration, head, rfl, rfl, rfl, rfl⟩
    | snapshot pc =>
      cases pc with
      | done =>
        cases h
        exact .inr ⟨by simp, hsame, by simp, rfl, rfl⟩
      | _ =>
        simp only [controlStep, FrameRing.clearStep, Option.map_map, Option.map_eq_some_iff,
          Prod.exists] at h
        obtain ⟨m, pc', es', hsnapshot, heq⟩ := h
        cases heq
        obtain ⟨hq, hes⟩ := FrameRing.snapshotStep_sameQueue hsnapshot
        exact .inr ⟨by simp, hq, by simp, moved_ring_eq_nil hes, returned_ring_eq_nil es'⟩
    | storeWatermark =>
      cases h
      exact .inr ⟨by simp, FrameRing.Memory.sameQueue_watermark _ _, by simp, rfl, rfl⟩
    | done =>
      cases h
      exact .inr ⟨by simp, hsame, by simp, rfl, rfl⟩
  | recordControllerReset =>
    cases h
    exact .inr ⟨by simp, FrameRing.Memory.sameQueue_fetchAdd _ _ _, by simp, rfl, rfl⟩
  | beginStart | abortStart | beginStopAfterTask | beginStop =>
    right
    simp only [controlStep] at h
    split at h <;> cases h <;> exact ⟨by simp, hsame, by simp, rfl, rfl⟩
  | drainAvailable | drain =>
    right
    simp only [controlStep] at h
    split at h <;> cases h
    · have htake : g.takeAvailable = some g' := ‹_›
      exact ⟨by simp, by rw [(takeAvailable_frames htake).1]; exact hsame, by simp, rfl, rfl⟩
    · exact ⟨by simp, hsame, by simp, rfl, rfl⟩
  | drainTaskStopped =>
    right
    simp only [controlStep] at h
    split at h <;> cases h
    · exact ⟨by simp, (takeTaskStopped_sameTraffic ‹_›).queue, by simp, rfl, rfl⟩
    · exact ⟨by simp, hsame, by simp, rfl, rfl⟩
  | waitTask =>
    right
    simp only [controlStep] at h
    split at h <;> split_ifs at h <;> cases h
    · exact ⟨by simp, (takeTaskStopped_sameTraffic ‹_›).queue, by simp, rfl, rfl⟩
    · exact ⟨by simp, hsame, by simp, rfl, rfl⟩
  | tryTakeTask =>
    cases h
    refine .inr ⟨by simp, ?_, by simp, rfl, rfl⟩
    cases htake : g.takeTaskStopped with
    | none => exact hsame
    | some g' => exact (takeTaskStopped_sameTraffic htake).queue
  | reconcile next pc =>
    right
    simp only [controlStep] at h
    split at h <;> cases h
    · exact ⟨by simp, hsame, by simp, rfl, rfl⟩
    · obtain ⟨hnoclear, hmoved, hreturned⟩ := afterReconcile_queue next
      exact ⟨by simp, hsame, fun configuration head hclear =>
        absurd hclear (hnoclear configuration _), hmoved, hreturned⟩
  | createTaskStopped | setBusId | createTask | readStarted | readOwned | readInstalled =>
    right
    simp only [controlStep] at h
    split_ifs at h <;> cases h <;> exact ⟨by simp, hsame, by simp, rfl, rfl⟩
  | install | twaiStart | uninstallAfterStart | twaiStopAfterTask | uninstallAfterTask | twaiStop
  | uninstall =>
    right
    cases ok <;> cases h <;> exact ⟨by simp, hsame, by simp, rfl, rfl⟩
  | _ =>
    cases h
    exact .inr ⟨by simp, hsame, by simp, rfl, rfl⟩

theorem flushes_eq_false {s : State} {a : Action}
    (h : ∀ configuration head, s.control ≠ .clearFrames configuration (.storeTail head)) :
    s.flushes a = false := by
  unfold State.flushes
  split
  · split
    · exact absurd ‹_› (h _ _)
    · rfl
  · rfl

theorem control_conveys {s t : State} {ok : Bool} {es : List Event} (h : s.Queued) (haway : s.Away)
    (hstep : controlStep s.shared ok s.control = some (t.shared, t.control, es))
    (htasks : ∀ (i : ℕ) q, t.tasks[i]? = some (.push q) → s.tasks[i]? = some (.push q))
    (hnopush : ∀ configuration pc, s.control = .clearFrames configuration pc →
      ∀ (i : ℕ) q, s.tasks[i]? ≠ some (.push q))
    (hconsumer : t.consumer = s.consumer) :
    t.Queued ∧ Conveys s t (s.flushes (.control ok)) es := by
  rcases controlStep_queue hstep with ⟨configuration, head, hcontrol, hframes, hnext, rfl⟩ |
    ⟨hno, hq, hclearing, hmoved, hreturned⟩
  · obtain rfl : head = s.shared.frames.head := h.clearing configuration head hcontrol
    have hidle : s.consumer = .idle := haway (by rw [hcontrol]; rfl)
    have hnone : ∀ (i : ℕ) q, t.tasks[i]? ≠ some (.push q) := fun i q hi =>
      hnopush configuration _ hcontrol i q (htasks i q hi)
    have hheld : t.shared.frames.held = 0 := by simp [hframes, FrameRing.Memory.held]
    refine ⟨⟨by omega, fun i q hi => absurd hi (hnone i q), fun i q _ hi => absurd hi (hnone i q),
      ?_, ?_⟩, .flushed ?_ hidle (hconsumer.trans hidle) (by simp [State.flushes, hcontrol]) rfl⟩
    · simp [hconsumer, hidle]
    · simp [hnext]
    · rw [← List.length_eq_zero_iff, length_contents, hheld]
  · exact ⟨h.sameQueue hq (fun i q hi => .inl (htasks i q hi)) (fun q hq => .inl (hconsumer ▸ hq))
      (fun configuration head hclear => .inr (hclearing configuration head hclear)),
      .quiet (contents_of_sameQueue hq) (by rw [State.hand, hconsumer, State.hand])
        (flushes_eq_false hno) hmoved hreturned⟩

/-! ## All parties -/

theorem spawned_push {ok : Bool} {pc : ControlPc} {q : FrameRing.PushPc 32} :
    TaskPc.push q ∉ spawned ok pc := by
  intro hq
  by_cases hspawn : spawned ok pc = []
  · simp [hspawn] at hq
  · obtain ⟨rfl, rfl⟩ := spawned_ne_nil hspawn
    simp [spawned] at hq

theorem State.TaskExclusive.not_pushing {s : State} (h : s.TaskExclusive)
    (howned : s.control.Owned s.shared) (configuration : Configuration)
    (pc : FrameRing.ClearPc 32) (hcontrol : s.control = .clearFrames configuration pc) (i : ℕ)
    (q : FrameRing.PushPc 32) : s.tasks[i]? ≠ some (.push q) := fun hi =>
  (h.pushing howned hi).2 configuration pc hcontrol

/-- Every step of every party conveys at most one frame, and keeps the ends of
the ring where each side believes them to be. -/
theorem step_conveys {s t : State} {a : Action} {es : List Event}
    (howned : s.control.Owned s.shared)
    (hexclusive : s.TaskExclusive) (haway : s.Away) (h : s.Queued)
    (hstep : step s a = some (t, es)) : t.Queued ∧ Conveys s t (s.flushes a) es := by
  have haside {u : State} {fs : List Event} (hq : s.shared.frames.SameQueue u.shared.frames)
      (htasks : u.tasks = s.tasks) (hconsumer : u.consumer = s.consumer ∨
        ∃ timeoutMs, s.consumer = .idle ∧ u.consumer = .enter timeoutMs)
      (hcontrol : ∀ configuration head, u.control = .clearFrames configuration (.storeTail head) →
        s.control = .clearFrames configuration (.storeTail head))
      (hmoved : ∀ {δ : Type}, fs.filterMap (Event.moved? (δ := δ)) = [])
      (hreturned : fs.filterMap Event.returned? = []) : u.Queued ∧ Conveys s u false fs := by
    refine ⟨h.sameQueue hq (fun i q hi => .inl (htasks ▸ hi)) (fun q hc => ?_)
      (fun configuration head hclear => .inl (hcontrol configuration head hclear)),
      .quiet (contents_of_sameQueue hq) ?_ rfl hmoved hreturned⟩
    · rcases hconsumer with hsame | ⟨timeoutMs, -, hbegun⟩
      · exact .inl (hsame ▸ hc)
      · simp [hbegun] at hc
    · rcases hconsumer with hsame | ⟨timeoutMs, hidle, hbegun⟩
      · rw [State.hand, hsame, State.hand]
      · rw [State.hand, hbegun, State.hand, hidle]
        rfl
  have hsame : s.shared.frames.SameQueue s.shared.frames := FrameRing.Memory.sameQueue_refl _
  cases step_cases hstep with
  | start | stop => exact haside hsame rfl (.inl rfl) (by simp) rfl rfl
  | startInvalid => exact ⟨h, .quiet rfl rfl rfl rfl rfl⟩
  | @control ok g pc es hcontrol =>
    refine control_conveys h haway hcontrol (fun i q hi => ?_)
      (hexclusive.not_pushing howned) rfl
    rw [List.getElem?_append] at hi
    split_ifs at hi
    · exact hi
    · exact absurd (List.mem_of_getElem? hi) spawned_push
  | task active htask => exact task_conveys h hexclusive howned active htask rfl rfl rfl
  | receive idle => exact haside hsame rfl (.inr ⟨_, idle, rfl⟩) (fun _ _ hclear => hclear) rfl rfl
  | consumer hconsumer => exact consumer_conveys h hconsumer rfl rfl
  | beginSnapshot | returnSnapshot | enterBusOff =>
    exact haside hsame rfl (.inl rfl) (fun _ _ hclear => hclear) rfl rfl
  | snapshot active hsnapshot =>
    obtain ⟨hq, hes⟩ := FrameRing.snapshotStep_sameQueue hsnapshot
    exact haside hq rfl (.inl rfl) (fun _ _ hclear => hclear) (moved_ring_eq_nil hes)
      (returned_ring_eq_nil _)

/-! ## Runs -/

def ReceivePc.isIdle : ReceivePc → Bool
  | idle => true
  | _ => false

theorem ReceivePc.isIdle_iff {pc : ReceivePc} : pc.isIdle = true ↔ pc = .idle := by
  cases pc <;> simp [isIdle]

/-- `begin_start()` is about to accept a start. -/
def State.accepts (s : State) : Action → Bool
  | .control _ => match s.control with
    | .beginStart _ => s.shared.lifecycle.state = .stopped
    | _ => false
  | _ => false

theorem controlStep_started {g g' : Shared} {ok : Bool} {pc pc' : ControlPc} {es : List Event}
    {cleanupRequired : Bool} (hcoherent : pc.Coherent g)
    (h : controlStep g ok pc = some (g', pc', es)) (ho : .started ⟨.ok, cleanupRequired⟩ ∈ es) :
    pc = .startSucceeded := by
  cases pc with
  | idle => cases h
  | startSucceeded => rfl
  | rejected =>
    cases h
    cases hstate : g.lifecycle.state <;> simp [hstate, rejectedResult] at ho
  | abortStart result pc =>
    simp only [controlStep] at h
    split at h <;> cases h
    · simp at ho
    · simp only [List.mem_singleton, Event.started.injEq, StartOutcome.mk.injEq] at ho
      exact absurd ho.1.symm hcoherent
  | reconcile next pc =>
    simp only [controlStep] at h
    split at h <;> cases h
    · simp at ho
    · cases next with
      | stop =>
        simp only [afterReconcile] at ho
        split_ifs at ho <;> simp at ho
      | _ => simp [afterReconcile] at ho
  | beginStart | drainAvailable | drainTaskStopped | beginStopAfterTask | beginStop | drain =>
    simp only [controlStep] at h
    split at h <;> cases h <;> simp at ho
  | createTaskStopped | createTask | readInstalled =>
    simp only [controlStep] at h
    split_ifs at h <;> cases h <;> simp at ho
  | waitTask =>
    simp only [controlStep] at h
    split at h <;> split_ifs at h <;> cases h <;> simp at ho
  | clearFrames configuration pc =>
    cases pc with
    | done =>
      cases h
      simp at ho
    | _ =>
      simp only [controlStep, Option.map_eq_some_iff, Prod.exists] at h
      obtain ⟨_, _, _, -, heq⟩ := h
      cases heq
      simp at ho
  | _ =>
    cases h
    simp at ho

theorem step_started {s t : State} {a : Action} {es : List Event} {cleanupRequired : Bool}
    (hs : s.Sound) (ha : a.beginsCall = false) (h : step s a = some (t, es))
    (ho : .started ⟨.ok, cleanupRequired⟩ ∈ es) : s.control = .startSucceeded := by
  rcases (step_cases h).control_cases with
    ⟨hbegins, -⟩ | ⟨ok, -, hcontrol⟩ | ⟨-, -, hquiet⟩
  · simp [ha] at hbegins
  · exact controlStep_started hs.coherent hcontrol ho
  · have hno := hquiet _ ho
    simp [Event.ofControl] at hno

theorem State.entering_of_accepts {s : State} {a : Action} (h : s.accepts a = true) :
    s.control.phase = .entering ∧ s.shared.lifecycle.state = .stopped := by
  cases a with
  | control ok =>
    simp only [accepts] at h
    split at h
    · rename_i hcontrol
      exact ⟨by rw [hcontrol]; rfl, by simpa using h⟩
    · cases h
  | _ => cases h

/-- No `receive` call is in progress when a start is accepted, and none begins
before that start has returned. -/
def ConsumerAway (s : State) (a : Action) : Prop :=
  (s.accepts a = true → s.consumer.isIdle = true) ∧
    match a with
    | .receive _ => s.control.phase ≠ .starting
    | _ => True

instance (s : State) (a : Action) : Decidable (ConsumerAway s a) :=
  match a with
  | .receive _ => inferInstanceAs (Decidable ((_ → _) ∧ _ ≠ _))
  | .start _ | .stop | .control _ | .task _ _ | .consumer _ | .beginSnapshot _ _ | .observer _ _
  | .enterBusOff => inferInstanceAs (Decidable ((_ → _) ∧ True))

theorem controlStep_accepts {s : State} {g : Shared} {ok : Bool} {pc : ControlPc} {es : List Event}
    (hs : s.Sound) (h : controlStep s.shared ok s.control = some (g, pc, es))
    (hpc : pc.phase = .starting) :
    s.control.phase = .starting ∨ s.accepts (.control ok) = true := by
  have hprogress := (controlStep_phase hs.owned hs.coherent h).2
  rw [hpc] at hprogress
  generalize hphase : s.control.phase = phase at hprogress
  cases hprogress with
  | within => exact .inl rfl
  | accepted free =>
    right
    cases hcontrol : s.control with
    | beginStart => simp [State.accepts, hcontrol, free]
    | rejected =>
      rw [hcontrol] at h
      cases h
    | reconcile next => cases next <;> simp [hcontrol, ControlPc.phase] at hphase
    | _ => simp [hcontrol, ControlPc.phase] at hphase

theorem step_accepts {s t : State} {a : Action} {es : List Event} (hs : s.Sound)
    (hstep : step s a = some (t, es)) (ht : t.control.phase = .starting) :
    s.control.phase = .starting ∨ s.accepts a = true := by
  cases step_cases hstep with
  | start | stop => cases ht
  | control hcontrol => exact controlStep_accepts hs hcontrol ht
  | _ => exact .inl ht

theorem step_away {s t : State} {a : Action} {es : List Event} (hs : s.Sound) (haway : s.Away)
    (hC : ConsumerAway s a) (hstep : step s a = some (t, es)) : t.Away := by
  intro hstarting
  have hidle : s.consumer = .idle := by
    rcases step_accepts hs hstep hstarting with hbefore | haccepts
    · exact haway hbefore
    · exact ReceivePc.isIdle_iff.mp (hC.1 haccepts)
  cases step_cases hstep with
  | receive => exact absurd hstarting hC.2
  | consumer hconsumer =>
    rw [hidle] at hconsumer
    cases hconsumer
  | _ => exact hidle

structure State.Conveying (s : State) : Prop where
  sound : s.Sound
  exclusive : s.TaskExclusive
  away : s.Away
  queued : s.Queued

theorem boot_conveying : boot.Conveying where
  sound := boot_sound
  exclusive := boot_taskExclusive
  away := fun _ => rfl
  queued := by
    have hheld : boot.shared.frames.held = 0 := by simp [boot, FrameRing.Memory.held]
    exact ⟨by omega, by simp [boot], by simp [boot], by simp [boot], by simp [boot]⟩

theorem step_conveying {s t : State} {a : Action} {es : List Event} (hs : s.Conveying)
    (hcreate : CreatesAcknowledged s a) (haway : ConsumerAway s a)
    (hstep : step s a = some (t, es)) : t.Conveying :=
  ⟨step_sound hs.sound hstep,
    step_taskExclusive hs.sound.owned hs.exclusive hcreate hstep,
    step_away hs.sound hs.away haway hstep,
    (step_conveys hs.sound.owned hs.exclusive hs.away hs.queued hstep).1⟩

def State.conveyor (s : State) : Conveyor RawCanFrame := ⟨s.contents, s.hand⟩

theorem boot_conveyor : boot.conveyor = {} := by
  simp [State.conveyor, State.contents, State.hand, boot, ReceivePc.hand,
    FrameRing.Memory.contents]

theorem conveyed_of_step {s t : State} {a : Action} {es : List Event}
    (hstep : step s a = some (t, es)) :
    conveyed s a = (if s.flushes a then [.flushed] else []) ++
      (es.filterMap Event.moved? ++ es.filterMap Event.returned?) := by
  simp [conveyed, hstep]

/-- Every step is a step of the conveyor, and what enters it is a valid frame. -/
theorem Conveys.accepted {s t : State} {a : Action} {es : List Event}
    (hstep : step s a = some (t, es)) (h : Conveys s t (s.flushes a) es) :
    (Automata.conveyor RawCanFrame Unit kQueueCapacity).accept s.conveyor (conveyed s a) =
        some t.conveyor ∧
      ∀ frame ∈ ConveyorEvent.enteredItems (conveyed s a), frame.isValid = true := by
  rw [conveyed_of_step hstep, State.conveyor, State.conveyor]
  cases h with
  | quiet contents hand flush moved returned =>
    simp [flush, moved, returned, contents, hand, ConveyorEvent.enteredItems]
  | @entered frame room contents hand valid flush events =>
    subst events
    have hevents : [Event.ring (.published frame)].filterMap Event.moved? ++
        [Event.ring (.published frame)].filterMap Event.returned? =
        [(.entered frame : ConveyorEvent RawCanFrame Unit)] := rfl
    simp [flush, hevents, contents, hand, conveyor_entered room, ConveyorEvent.enteredItems, valid]
  | @taken frame contents before after flush events =>
    subst events
    have hevents : [Event.ring (.delivered frame)].filterMap Event.moved? ++
        [Event.ring (.delivered frame)].filterMap Event.returned? =
        [(.taken frame : ConveyorEvent RawCanFrame Unit)] := rfl
    simp [flush, hevents, contents, before, after, conveyor_taken, ConveyorEvent.enteredItems]
  | @returned frame contents before after flush events =>
    subst events
    have hevents : [Event.received .ok (some frame)].filterMap Event.moved? ++
        [Event.received .ok (some frame)].filterMap Event.returned? =
        [(.disposed () frame : ConveyorEvent RawCanFrame Unit)] := rfl
    simp [flush, hevents, contents, before, after, conveyor_disposed, ConveyorEvent.enteredItems]
  | flushed contents before after flush events =>
    subst events
    simp [flush, contents, State.hand, before, after, ReceivePc.hand, conveyor_flushed,
      ConveyorEvent.enteredItems]

theorem run_conveyed {s : State} {as : List Action} {es : List Event}
    (hC : machine.Along (fun s a => CreatesAcknowledged s a ∧ ConsumerAway s a) boot as)
    (hrun : machine.run boot as = some (s, es)) :
    s.Conveying ∧
      (Automata.conveyor RawCanFrame Unit kQueueCapacity).accept {}
        (machine.history conveyed boot as) = some s.conveyor ∧
      ∀ frame ∈ ConveyorEvent.enteredItems (machine.history conveyed boot as),
        frame.isValid = true := by
  refine machine.run_history_along (h := [])
    (I := fun h s => s.Conveying ∧
      (Automata.conveyor RawCanFrame Unit kQueueCapacity).accept {} h = some s.conveyor ∧
      ∀ frame ∈ ConveyorEvent.enteredItems h, frame.isValid = true)
    (fun h s a t es hI hC hstep => ?_) ⟨boot_conveying, ?_, ?_⟩ hC hrun
  · obtain ⟨hs, haccept, hvalid⟩ := hI
    have hconveys := (step_conveys hs.sound.owned hs.exclusive hs.away hs.queued hstep).2
    obtain ⟨hstep', hentered⟩ := hconveys.accepted hstep
    refine ⟨step_conveying hs hC.1 hC.2 hstep, ?_, fun frame hframe => ?_⟩
    · exact (Acceptor.accept_append_eq_some _).mpr ⟨_, haccept, hstep'⟩
    · rw [ConveyorEvent.enteredItems, List.filterMap_append, List.mem_append] at hframe
      exact hframe.elim (hvalid frame) (hentered frame)
  · rw [boot_conveyor]
    rfl
  · simp [ConveyorEvent.enteredItems]

/-- Whatever the order of starts, stops, faults, tasks, observers and `receive`
calls, and whatever the driver answers: the calls of `receive` return the valid
frames that were accepted since a start last cleared the ring, each once and in order,
as long as no task is created over an outstanding acknowledgement and nobody receives
while an accepted start is in progress. What that start has found in the ring is never
returned. -/
theorem receive_in_order {s : State} {as : List Action} {es : List Event}
    (hC : machine.Along (fun s a => CreatesAcknowledged s a ∧ ConsumerAway s a) boot as)
    (hrun : machine.run boot as = some (s, es)) :
    let since := ConveyorEvent.session (machine.history conveyed boot as)
    ConveyorEvent.disposedItems since ++ s.hand.toList ++ s.contents =
        ConveyorEvent.enteredItems since ∧
      s.contents.length ≤ kQueueCapacity ∧
      ∀ frame ∈ ConveyorEvent.enteredItems since, frame.isValid = true := by
  obtain ⟨-, haccept, hvalid⟩ := run_conveyed hC hrun
  obtain ⟨horder, hlen⟩ := conveyor_session haccept
  refine ⟨horder, hlen, ?_⟩
  intro frame hframe
  exact hvalid frame (ConveyorEvent.entered_of_session hframe)

def messageSchedule (i : ℕ) (identifier : UInt32) (n : ℕ) : List Action :=
  List.replicate n (.task i { received := .message { identifier := identifier } 0 })

def receiveSchedule (n : ℕ) : List Action := .receive 100 :: List.replicate n (.consumer true)

/-- Of two frames one is received, then the task faults and the acquisition is
restarted; of two more frames a `receive` call has taken the first. -/
def restartSchedule : List Action :=
  startSchedule 37 ++ messageSchedule 0 5 17 ++ messageSchedule 0 6 17 ++ receiveSchedule 9 ++
    faultSchedule 0 9 ++ stopSchedule ++ [.control true] ++ startSchedule 38 ++
    messageSchedule 1 7 12 ++ messageSchedule 1 8 17 ++ receiveSchedule 8

theorem receive_in_order_restart : ∃ s es, machine.run boot restartSchedule = some (s, es) ∧
    s.hand.map (·.identifier) = some 7 ∧ s.contents.map (·.identifier) = [8] ∧
    let since := ConveyorEvent.session (machine.history conveyed boot restartSchedule)
    ConveyorEvent.disposedItems since ++ s.hand.toList ++ s.contents =
      ConveyorEvent.enteredItems since := by
  have hobserved : (machine.run boot restartSchedule).map (fun p =>
      (p.1.hand.map (·.identifier), p.1.contents.map (·.identifier))) = some (some 7, [8]) := by
    decide +kernel
  obtain ⟨⟨s, es⟩, hrun, heq⟩ := Option.map_eq_some_iff.mp hobserved
  simp only [Prod.mk.injEq] at heq
  exact ⟨s, es, hrun, heq.1, heq.2, (receive_in_order (by decide +kernel) hrun).1⟩

end CanBus
end VehicleCanCore

import VehicleCanCore.Automata.BoundedQueue
import VehicleCanCore.CanBus.FrameRing

/-!
# The frame ring refines a bounded first-in first-out queue

The abstract queue is the window of published, not yet released slots. The
producer owns the head and the slot one past the window; the consumer owns the
tail and the first slot of the window. What each side knows at a program point
survives every step of the other side, whatever the indices have wrapped to.
-/

namespace VehicleCanCore
namespace CanBus
namespace FrameRing

open VehicleCanCore.Core Automata CircularWindow

variable {w : ℕ} {C : Capacity w}

namespace Memory

/-- The number of published frames that no `pop` has released. -/
def held (m : Memory C) : ℕ := (m.head - m.tail).toNat

theorem head_eq (m : Memory C) : m.head = m.tail + BitVec.ofNat w m.held := by
  rw [held, BitVec.ofNat_toNat, BitVec.setWidth_eq, BitVec.add_comm, BitVec.sub_add_cancel]

theorem contents_eq (m : Memory C) : m.contents = window m.frames m.tail m.held := rfl

@[simp] theorem length_contents (m : Memory C) : m.contents.length = m.held := by
  simp [contents_eq]

/-- The part of the ring that the queue consists of is untouched. -/
def SameQueue (m m' : Memory C) : Prop :=
  m'.frames = m.frames ∧ m'.head = m.head ∧ m'.tail = m.tail

theorem SameQueue.held_eq {m m' : Memory C} (h : SameQueue m m') : m'.held = m.held := by
  rw [held, held, h.2.1, h.2.2]

theorem SameQueue.contents_eq {m m' : Memory C} (h : SameQueue m m') :
    m'.contents = m.contents := by
  rw [Memory.contents_eq, Memory.contents_eq, h.1, h.2.2, h.held_eq]

theorem sameQueue_refl (m : Memory C) : SameQueue m m := ⟨rfl, rfl, rfl⟩

theorem SameQueue.trans {m m' n : Memory C} (h : SameQueue m m') (h' : SameQueue m' n) :
    SameQueue m n := ⟨h'.1.trans h.1, h'.2.1.trans h.2.1, h'.2.2.trans h.2.2⟩

theorem sameQueue_fetchAdd (m : Memory C) (k : Counter) (n : BitVec 64) :
    SameQueue m (m.fetchAdd k n) := ⟨rfl, rfl, rfl⟩

theorem sameQueue_exchange (m : Memory C) (k : Counter) (n : BitVec 64) :
    SameQueue m (m.exchange k n) := ⟨rfl, rfl, rfl⟩

theorem sameQueue_watermark (m : Memory C) (n : BitVec 32) :
    SameQueue m { m with queueHighWatermark := n } := ⟨rfl, rfl, rfl⟩

def advanceHead (m : Memory C) : Memory C := { m with head := m.head + 1#w }

def advanceTail (m : Memory C) : Memory C := { m with tail := m.tail + 1#w }

@[simp] theorem held_storeSlot (m : Memory C) (i : BitVec w) (frame : RawCanFrame) :
    (m.storeSlot i frame).held = m.held := rfl

theorem held_advanceHead (m : Memory C) (h : m.held < C.size) :
    m.advanceHead.held = m.held + 1 := by
  have hfits := C.fits
  have hhead := m.head_eq
  change (m.head + 1#w - m.tail).toNat = m.held + 1
  rw [hhead, offset_succ, toNat_offset_sub]
  omega

theorem contents_advanceHead (m : Memory C) (h : m.held < C.size) :
    m.advanceHead.contents = m.contents ++ [m.frames (slot C.size m.head)] := by
  rw [contents_eq, m.held_advanceHead h, contents_eq, m.head_eq]
  exact window_succ m.frames m.tail m.held

theorem held_advanceTail (m : Memory C) (h : 0 < m.held) :
    m.advanceTail.held + 1 = m.held := by
  have hlt : m.held < 2 ^ w := (m.head - m.tail).isLt
  have hhead := m.head_eq
  obtain ⟨n, hn⟩ : ∃ n, m.held = n + 1 := ⟨m.held - 1, by omega⟩
  change (m.head - (m.tail + 1#w)).toNat + 1 = m.held
  rw [hhead, hn, ← offset_tail, toNat_offset_sub]
  omega

theorem contents_advanceTail (m : Memory C) (h : 0 < m.held) :
    m.contents = m.frames (slot C.size m.tail) :: m.advanceTail.contents := by
  rw [contents_eq, ← m.held_advanceTail h, window_cons]
  rfl

theorem slot_head_ne (hdvd : C.size ∣ 2 ^ w) (m : Memory C) (hfree : m.held < C.size) {k : ℕ}
    (hk : k < m.held) : slot C.size (m.tail + BitVec.ofNat w k) ≠ slot C.size m.head := by
  rw [m.head_eq]
  exact slot_offset_ne hdvd m.tail hk (by omega)

theorem slot_tail_ne_head (hdvd : C.size ∣ 2 ^ w) (m : Memory C) (hfree : m.held < C.size)
    (hpos : 0 < m.held) : slot C.size m.tail ≠ slot C.size m.head := by
  simpa using m.slot_head_ne hdvd hfree hpos

theorem contents_storeSlot (hdvd : C.size ∣ 2 ^ w) (m : Memory C) (hfree : m.held < C.size)
    (frame : RawCanFrame) : (m.storeSlot m.head frame).contents = m.contents := by
  rw [contents_eq, held_storeSlot, contents_eq, m.head_eq]
  exact window_update hdvd m.frames m.tail hfree frame

end Memory

/-! ## What each side knows at its program points -/

/-- The producer's view: its copy of the head is exact, and a slot it has found
free stays free, since only the consumer moves the tail. -/
def PushPc.Sound (m : Memory C) : PushPc w → Prop
  | .loadTail _ head => head = m.head
  | .writeSlot _ head _ => head = m.head ∧ m.held < C.size
  | .storeHead frame head _ =>
    head = m.head ∧ m.held < C.size ∧ m.frames (slot C.size head) = frame
  | _ => True

/-- The consumer's view: its copy of the tail is exact, and a frame it has found
published stays in its slot. -/
def PopPc.Sound (m : Memory C) : PopPc w → Prop
  | .loadHead tail => tail = m.tail
  | .readSlot tail => tail = m.tail ∧ 0 < m.held
  | .storeTail tail frame => tail = m.tail ∧ 0 < m.held ∧ m.frames (slot C.size tail) = frame
  | _ => True

@[simp] theorem PushPc.sound_afterWatermark (m : Memory C) (depth watermark : BitVec 32) :
    (PushPc.afterWatermark depth watermark : PushPc w).Sound m := by
  unfold PushPc.afterWatermark
  split_ifs <;> trivial

theorem PushPc.Sound.sameQueue {m m' : Memory C} {pc : PushPc w} (hq : m.SameQueue m')
    (h : pc.Sound m) : pc.Sound m' := by
  cases pc with
  | loadTail frame head => exact h.trans hq.2.1.symm
  | writeSlot frame head tail => exact ⟨h.1.trans hq.2.1.symm, hq.held_eq ▸ h.2⟩
  | storeHead frame head tail =>
    exact ⟨h.1.trans hq.2.1.symm, hq.held_eq ▸ h.2.1, by rw [hq.1]; exact h.2.2⟩
  | _ => trivial

theorem PopPc.Sound.sameQueue {m m' : Memory C} {pc : PopPc w} (hq : m.SameQueue m')
    (h : pc.Sound m) : pc.Sound m' := by
  cases pc with
  | loadHead tail => exact h.trans hq.2.2.symm
  | readSlot tail => exact ⟨h.1.trans hq.2.2.symm, hq.held_eq ▸ h.2⟩
  | storeTail tail frame =>
    exact ⟨h.1.trans hq.2.2.symm, hq.held_eq ▸ h.2.1, by rw [hq.1]; exact h.2.2⟩
  | _ => trivial

def Event.queue? : Event → Option (QueueEvent RawCanFrame)
  | .published frame => some (.enqueue frame)
  | .delivered frame => some (.dequeue frame)
  | _ => none

/-- What a step of `push` does to the memory: nothing the queue depends on, one
write to the free slot at the head, or the publication of that slot. -/
theorem pushStep_cases {m m' : Memory C} {spurious : Bool} {pc pc' : PushPc w}
    {es : List Event} (hsound : pc.Sound m) (h : pushStep m spurious pc = some (m', pc', es)) :
    (m.SameQueue m' ∧ es.filterMap Event.queue? = [] ∧ (m.held ≤ C.size → pc'.Sound m')) ∨
    (∃ frame tail, pc = .writeSlot frame m.head tail ∧ m.held < C.size ∧
      m' = m.storeSlot m.head frame ∧ pc' = .storeHead frame m.head tail ∧ es = []) ∨
    (∃ frame tail depth, pc = .storeHead frame m.head tail ∧ m.held < C.size ∧
      m.frames (slot C.size m.head) = frame ∧ m' = m.advanceHead ∧
      pc' = .loadWatermark depth ∧ es = [.published frame]) := by
  cases pc with
  | loadTail frame head =>
    obtain rfl : head = m.head := hsound
    left
    simp only [pushStep] at h
    split_ifs at h with hfull <;> cases h
    · exact ⟨m.sameQueue_refl, rfl, fun _ => trivial⟩
    · exact ⟨m.sameQueue_refl, rfl, fun _ => ⟨rfl, not_le.mp hfull⟩⟩
  | writeSlot frame head tail =>
    obtain ⟨rfl, hfree⟩ := hsound
    cases h
    exact .inr (.inl ⟨frame, tail, rfl, hfree, rfl, rfl, rfl⟩)
  | storeHead frame head tail =>
    obtain ⟨rfl, hfree, hframe⟩ := hsound
    cases h
    exact .inr (.inr ⟨frame, tail, _, rfl, hfree, hframe, rfl, rfl, rfl⟩)
  | raiseWatermark depth watermark =>
    left
    simp only [pushStep] at h
    split_ifs at h <;> cases h
    · exact ⟨m.sameQueue_watermark depth, rfl, fun _ => trivial⟩
    · exact ⟨m.sameQueue_refl, rfl, fun _ => by simp⟩
  | loadWatermark depth =>
    cases h
    exact .inl ⟨m.sameQueue_refl, rfl, fun _ => by simp⟩
  | loadHead frame =>
    cases h
    exact .inl ⟨m.sameQueue_refl, rfl, fun _ => rfl⟩
  | countReceived frame | countDropped | countOverflow | countQueued =>
    cases h
    exact .inl ⟨m.sameQueue_fetchAdd _ _, rfl, fun _ => trivial⟩
  | done accepted => cases h

/-- What a step of `pop` does: nothing the queue depends on, or the release of
the oldest frame, whose value the consumer has already copied. -/
theorem popStep_cases {m m' : Memory C} {pc pc' : PopPc w} {es : List Event}
    (hsound : pc.Sound m) (h : popStep m pc = some (m', pc', es)) :
    (m.SameQueue m' ∧ es.filterMap Event.queue? = [] ∧ pc'.Sound m') ∨
    (∃ frame, pc = .storeTail m.tail frame ∧ 0 < m.held ∧
      m.frames (slot C.size m.tail) = frame ∧ m' = m.advanceTail ∧
      pc' = .countDelivered frame ∧ es = [.delivered frame]) := by
  cases pc with
  | loadTail =>
    cases h
    exact .inl ⟨m.sameQueue_refl, rfl, rfl⟩
  | loadHead tail =>
    obtain rfl : tail = m.tail := hsound
    left
    simp only [popStep] at h
    split_ifs at h with hempty <;> cases h
    · exact ⟨m.sameQueue_refl, rfl, trivial⟩
    · refine ⟨m.sameQueue_refl, rfl, rfl, Nat.pos_of_ne_zero fun hzero => hempty ?_⟩
      simpa [hzero] using m.head_eq.symm
  | readSlot tail =>
    obtain ⟨rfl, hpos⟩ := hsound
    cases h
    exact .inl ⟨m.sameQueue_refl, rfl, rfl, hpos, rfl⟩
  | storeTail tail frame =>
    obtain ⟨rfl, hpos, hframe⟩ := hsound
    cases h
    exact .inr ⟨frame, rfl, hpos, hframe, rfl, rfl, rfl⟩
  | countDelivered frame =>
    cases h
    exact .inl ⟨m.sameQueue_fetchAdd _ _, rfl, trivial⟩
  | done frame => cases h

theorem snapshotStep_sameQueue {m m' : Memory C} {spurious : Bool} {pc pc' : SnapshotPc w}
    {es : List Event} (h : snapshotStep m spurious pc = some (m', pc', es)) :
    m.SameQueue m' ∧ es.filterMap Event.queue? = [] := by
  cases pc with
  | depth operation pc =>
    simp only [snapshotStep] at h
    split at h <;> cases h <;> exact ⟨m.sameQueue_refl, rfl⟩
  | counters operation result remaining =>
    cases operation <;> cases remaining <;> cases h
    · exact ⟨m.sameQueue_refl, rfl⟩
    · exact ⟨m.sameQueue_refl, rfl⟩
    · exact ⟨m.sameQueue_watermark _, rfl⟩
    · exact ⟨m.sameQueue_exchange _ _, rfl⟩
  | reconcileDepth result pc =>
    simp only [snapshotStep] at h
    split at h <;> cases h <;> exact ⟨m.sameQueue_refl, rfl⟩
  | loadWatermark result depth =>
    cases h
    exact ⟨m.sameQueue_refl, rfl⟩
  | raiseWatermark result depth watermark =>
    simp only [snapshotStep] at h
    split_ifs at h <;> cases h
    · exact ⟨m.sameQueue_watermark _, rfl⟩
    · exact ⟨m.sameQueue_refl, rfl⟩
  | done operation result => cases h

/-- One step of the producer moves the queue as its events say and disturbs
neither side's view. -/
theorem pushStep_refines (hdvd : C.size ∣ 2 ^ w) {m m' : Memory C} {spurious : Bool}
    {pc pc' : PushPc w} {es : List Event} (hheld : m.held ≤ C.size) (hsound : pc.Sound m)
    (h : pushStep m spurious pc = some (m', pc', es)) :
    m'.held ≤ C.size ∧ pc'.Sound m' ∧ (∀ qc : PopPc w, qc.Sound m → qc.Sound m') ∧
      (boundedQueue RawCanFrame C.size).accept m.contents (es.filterMap Event.queue?) =
        some m'.contents := by
  rcases pushStep_cases hsound h with ⟨hq, hes, hpc⟩ | ⟨frame, tail, rfl, hfree, rfl, rfl, rfl⟩ |
    ⟨frame, tail, depth, rfl, hfree, hframe, rfl, rfl, rfl⟩
  · exact ⟨hq.held_eq ▸ hheld, hpc hheld, fun qc hqc => hqc.sameQueue hq,
      by simp [hes, hq.contents_eq]⟩
  · refine ⟨hheld, ⟨rfl, hfree, Function.update_self ..⟩, fun qc hqc => ?_, ?_⟩
    · cases qc with
      | storeTail tail frame =>
        obtain ⟨rfl, hpos, hframe⟩ := hqc
        refine ⟨rfl, hpos, ?_⟩
        rw [← hframe]
        exact Function.update_of_ne (m.slot_tail_ne_head hdvd hfree hpos) _ _
      | _ => exact hqc
    · simp [m.contents_storeSlot hdvd hfree]
  · have hgrown := m.held_advanceHead hfree
    refine ⟨by omega, trivial, fun qc hqc => ?_, ?_⟩
    · cases qc with
      | readSlot tail => exact ⟨hqc.1, by omega⟩
      | storeTail tail frame => exact ⟨hqc.1, by omega, hqc.2.2⟩
      | _ => exact hqc
    · simp only [List.filterMap_cons, Event.queue?, List.filterMap_nil, Acceptor.accept_singleton]
      rw [boundedQueue_enqueue (by simpa using hfree), m.contents_advanceHead hfree, hframe]

theorem popStep_refines {m m' : Memory C} {pc pc' : PopPc w} {es : List Event}
    (hheld : m.held ≤ C.size) (hsound : pc.Sound m)
    (h : popStep m pc = some (m', pc', es)) :
    m'.held ≤ C.size ∧ pc'.Sound m' ∧ (∀ qc : PushPc w, qc.Sound m → qc.Sound m') ∧
      (boundedQueue RawCanFrame C.size).accept m.contents (es.filterMap Event.queue?) =
        some m'.contents := by
  rcases popStep_cases hsound h with ⟨hq, hes, hpc⟩ | ⟨frame, rfl, hpos, hframe, rfl, rfl, rfl⟩
  · exact ⟨hq.held_eq ▸ hheld, hpc, fun qc hqc => hqc.sameQueue hq,
      by simp [hes, hq.contents_eq]⟩
  · have hshrunk := m.held_advanceTail hpos
    refine ⟨by omega, trivial, fun qc hqc => ?_, ?_⟩
    · cases qc with
      | writeSlot frame head tail => exact ⟨hqc.1, by omega⟩
      | storeHead frame head tail => exact ⟨hqc.1, by omega, hqc.2.2⟩
      | _ => exact hqc
    · rw [m.contents_advanceTail hpos, hframe]
      simp only [List.filterMap_cons, Event.queue?, List.filterMap_nil, Acceptor.accept_singleton]
      exact boundedQueue_dequeue C.size frame _

/-! ## Runs of the ring with its callers -/

/-- The invariant of every run: at most a full ring is held and both sides'
views are exact. -/
structure Consistent (s : State C) : Prop where
  bounded : s.memory.held ≤ C.size
  producer : ∀ pc, s.producer = some pc → pc.Sound s.memory
  consumer : ∀ pc, s.consumer = some pc → pc.Sound s.memory

theorem consistent_cleared (m : Memory C) : Consistent (cleared m) := by
  refine ⟨?_, by simp [cleared], by simp [cleared]⟩
  simp [cleared, Memory.clear, Memory.held]

theorem contents_cleared (m : Memory C) : (cleared m).memory.contents = [] := by
  simp [cleared, Memory.clear, Memory.contents]

/-- A step that leaves the queue alone leaves the invariant and the contents alone. -/
theorem Consistent.sameQueue {s : State C} (hs : Consistent s) {m' : Memory C}
    (hq : s.memory.SameQueue m') (observers : ℕ → Option (SnapshotPc w)) :
    Consistent { s with memory := m', observers := observers } where
  bounded := hq.held_eq ▸ hs.bounded
  producer pc hpc := (hs.producer pc hpc).sameQueue hq
  consumer pc hpc := (hs.consumer pc hpc).sameQueue hq

/-- Every atomic step is a step of the bounded queue. -/
theorem simulates_boundedQueue (hdvd : C.size ∣ 2 ^ w) :
    (machine C).Simulates (boundedQueue RawCanFrame C.size) Event.queue?
      fun s q => Consistent s ∧ q = s.memory.contents := by
  rintro s a t es q ⟨hs, rfl⟩ hstep
  cases step_cases hstep with
  | beginPush => exact ⟨_, rfl, ⟨hs.bounded, by rintro _ ⟨⟩; trivial, hs.consumer⟩, rfl⟩
  | push active hpush =>
    obtain ⟨hheld, hpc, hothers, haccept⟩ :=
      pushStep_refines hdvd hs.bounded (hs.producer _ active) hpush
    exact ⟨_, haccept, ⟨hheld, by rintro _ ⟨⟩; exact hpc,
      fun qc hqc => hothers qc (hs.consumer qc hqc)⟩, rfl⟩
  | returnPush => exact ⟨_, rfl, ⟨hs.bounded, by simp, hs.consumer⟩, rfl⟩
  | beginPop => exact ⟨_, rfl, ⟨hs.bounded, hs.producer, by rintro _ ⟨⟩; trivial⟩, rfl⟩
  | pop active hpop =>
    obtain ⟨hheld, hpc, hothers, haccept⟩ :=
      popStep_refines hs.bounded (hs.consumer _ active) hpop
    exact ⟨_, haccept, ⟨hheld, fun qc hqc => hothers qc (hs.producer qc hqc),
      by rintro _ ⟨⟩; exact hpc⟩, rfl⟩
  | returnPop => exact ⟨_, rfl, ⟨hs.bounded, hs.producer, by simp⟩, rfl⟩
  | @record what count =>
    have hq := s.memory.sameQueue_fetchAdd what.counter count
    exact ⟨_, rfl, hs.sameQueue hq _, hq.contents_eq.symm⟩
  | beginSnapshot | returnSnapshot =>
    exact ⟨_, rfl, hs.sameQueue s.memory.sameQueue_refl _, rfl⟩
  | snapshot active hsnap =>
    obtain ⟨hq, hes⟩ := snapshotStep_sameQueue hsnap
    exact ⟨_, by rw [hes]; rfl, hs.sameQueue hq _, hq.contents_eq.symm⟩

/-! ## What a run has done so far -/

/-- Frames whose `push` has published the head. -/
def published (tr : List Event) : List RawCanFrame :=
  tr.filterMap fun e => match e with
    | .published frame => some frame
    | _ => none

/-- Frames whose slot `pop` has released by publishing the tail. -/
def delivered (tr : List Event) : List RawCanFrame :=
  tr.filterMap fun e => match e with
    | .delivered frame => some frame
    | _ => none

def returned (tr : List Event) : List RawCanFrame :=
  tr.filterMap fun e => match e with
    | .popReturned frame => frame
    | _ => none

/-- The published frames that are still in the ring. -/
def undelivered (tr : List Event) : List RawCanFrame :=
  (published tr).drop (delivered tr).length

@[simp] theorem published_append (tr es : List Event) :
    published (tr ++ es) = published tr ++ published es := List.filterMap_append

@[simp] theorem delivered_append (tr es : List Event) :
    delivered (tr ++ es) = delivered tr ++ delivered es := List.filterMap_append

@[simp] theorem returned_append (tr es : List Event) :
    returned (tr ++ es) = returned tr ++ returned es := List.filterMap_append

theorem published_eq (tr : List Event) :
    published tr = (tr.filterMap Event.queue?).filterMap QueueEvent.entered? := by
  rw [published, List.filterMap_filterMap]
  congr 1
  funext e
  cases e <;> rfl

theorem delivered_eq (tr : List Event) :
    delivered tr = (tr.filterMap Event.queue?).filterMap QueueEvent.left? := by
  rw [delivered, List.filterMap_filterMap]
  congr 1
  funext e
  cases e <;> rfl

/-- At every moment of every run the published frames are the released ones
followed by the contents of the ring. -/
theorem run_fifo (hdvd : C.size ∣ 2 ^ w) {m : Memory C} {as : List Action} {s : State C}
    {tr : List Event} (hrun : (machine C).run (cleared m) as = some (s, tr)) :
    Consistent s ∧ delivered tr ++ s.memory.contents = published tr := by
  obtain ⟨q, haccept, hs, rfl⟩ := (simulates_boundedQueue hdvd).accept_run
    ⟨consistent_cleared m, rfl⟩ hrun
  rw [contents_cleared] at haccept
  have hfifo := (boundedQueue_fifo haccept).1
  rw [← published_eq, ← delivered_eq] at hfifo
  exact ⟨hs, hfifo⟩

/-- The frame that a `pop` call has released but not yet returned. -/
def PopPc.inHand : PopPc w → List RawCanFrame
  | .countDelivered frame => [frame]
  | .done (some frame) => [frame]
  | _ => []

def State.inHand (s : State C) : List RawCanFrame := (s.consumer.map PopPc.inHand).getD []

/-- Program points from which `push` can only return false. -/
def PushPc.Refusing : PushPc w → Prop
  | .countDropped | .countOverflow | .done false => True
  | _ => False

/-- The latest load of the tail by the producer found exactly `Capacity`
published frames not yet popped. -/
def FullAtTailLoad (C : Capacity w) (tr : List Event) : Prop :=
  ∃ pre post, tr = pre ++ .tailLoaded :: post ∧ .tailLoaded ∉ post ∧
    (published pre).length = (delivered pre).length + C.size

theorem FullAtTailLoad.append {tr es : List Event} (h : FullAtTailLoad C tr)
    (hes : .tailLoaded ∉ es) : FullAtTailLoad C (tr ++ es) := by
  obtain ⟨pre, post, rfl, hpost, hfull⟩ := h
  exact ⟨pre, post ++ es, by simp, by simp [hpost, hes], hfull⟩

theorem pushStep_events {m m' : Memory C} {spurious : Bool} {pc pc' : PushPc w}
    {es : List Event} (h : pushStep m spurious pc = some (m', pc', es)) :
    delivered es = [] ∧ returned es = [] ∧ (pc.Refusing → .tailLoaded ∉ es) := by
  cases pc <;> simp only [pushStep] at h <;> (try split_ifs at h) <;> cases h <;>
    simp [delivered, returned, PushPc.Refusing]

theorem popStep_events {m m' : Memory C} {pc pc' : PopPc w} {es : List Event}
    (h : popStep m pc = some (m', pc', es)) :
    pc.inHand ++ delivered es = pc'.inHand ∧ returned es = [] ∧ .tailLoaded ∉ es := by
  cases pc <;> simp only [popStep] at h <;> (try split_ifs at h) <;> cases h <;>
    simp [delivered, returned, PopPc.inHand]

theorem snapshotStep_events {m m' : Memory C} {spurious : Bool} {pc pc' : SnapshotPc w}
    {es : List Event} (h : snapshotStep m spurious pc = some (m', pc', es)) :
    delivered es = [] ∧ returned es = [] ∧ .tailLoaded ∉ es := by
  cases pc with
  | counters operation result remaining =>
    cases operation <;> cases remaining <;> cases h <;> simp [delivered, returned]
  | loadWatermark => cases h; simp [delivered, returned]
  | done => cases h
  | depth | reconcileDepth =>
    simp only [snapshotStep] at h
    split at h <;> cases h <;> simp [delivered, returned]
  | raiseWatermark =>
    simp only [snapshotStep] at h
    split_ifs at h <;> cases h <;> simp [delivered, returned]

/-- A frame passes from the ring to the hand of its `pop` and from there to the caller. -/
theorem step_handover {s t : State C} {a : Action} {es : List Event}
    (h : step s a = some (t, es)) : s.inHand ++ delivered es = returned es ++ t.inHand := by
  cases step_cases h with
  | push active hpush => simp [State.inHand, pushStep_events hpush]
  | pop active hpop => simp [State.inHand, active, popStep_events hpop]
  | @returnPop frame active =>
    cases frame <;> simp [delivered, returned, State.inHand, PopPc.inHand, active]
  | snapshot active hsnap => simp [State.inHand, snapshotStep_events hsnap]
  | beginPop idle => simp [delivered, returned, State.inHand, PopPc.inHand, idle]
  | beginPush | returnPush | record | beginSnapshot | returnSnapshot =>
    simp [delivered, returned, State.inHand]

theorem run_handover {m : Memory C} {as : List Action} {s : State C} {tr : List Event}
    (hrun : (machine C).run (cleared m) as = some (s, tr)) :
    delivered tr = returned tr ++ s.inHand := by
  refine (machine C).run_induction (P := fun tr s => delivered tr = returned tr ++ s.inHand)
    (by simp [delivered, returned, cleared, State.inHand]) (fun _ tr s a t es _ hs ht => ?_) hrun
  rw [delivered_append, returned_append, hs, List.append_assoc, step_handover ht,
    List.append_assoc]

theorem pushStep_refusing {m m' : Memory C} {spurious : Bool} {pc pc' : PushPc w}
    {es : List Event} (hsound : pc.Sound m) (hpc : ¬ pc.Refusing) (hpc' : pc'.Refusing)
    (h : pushStep m spurious pc = some (m', pc', es)) :
    C.size ≤ m.held ∧ es = [.tailLoaded] := by
  cases pc with
  | loadTail frame head =>
    obtain rfl : head = m.head := hsound
    simp only [pushStep] at h
    split_ifs at h with hfull <;> cases h
    · exact ⟨hfull, rfl⟩
    · exact hpc'.elim
  | raiseWatermark depth watermark =>
    simp only [pushStep, PushPc.afterWatermark] at h
    split_ifs at h <;> cases h <;> exact hpc'.elim
  | loadWatermark depth =>
    simp only [pushStep, PushPc.afterWatermark] at h
    split_ifs at h <;> cases h <;> exact hpc'.elim
  | countDropped | countOverflow => exact (hpc trivial).elim
  | done => cases h
  | countReceived | loadHead | writeSlot | storeHead | countQueued =>
    cases h
    exact hpc'.elim

/-- A producer that has entered the refusing branch found the ring full at its
load of the tail, counted in frames published and not yet popped. -/
theorem run_refusal (hdvd : C.size ∣ 2 ^ w) {m : Memory C} {as : List Action} {s : State C}
    {tr : List Event} (hrun : (machine C).run (cleared m) as = some (s, tr)) :
    ∀ pc, s.producer = some pc → pc.Refusing → FullAtTailLoad C tr := by
  refine (machine C).run_induction
    (P := fun tr s => ∀ pc, s.producer = some pc → pc.Refusing → FullAtTailLoad C tr)
    (by simp [cleared]) (fun bs tr s a t es hbs ih ht => ?_) hrun
  intro pc' hpc' hrefusing
  cases step_cases ht with
  | beginPush =>
    cases hpc'
    exact hrefusing.elim
  | @push _ pc _ _ _ active hpush =>
    obtain rfl := Option.some.inj hpc'
    by_cases hold : pc.Refusing
    · exact (ih pc active hold).append ((pushStep_events hpush).2.2 hold)
    · obtain ⟨hs, hfifo⟩ := run_fifo hdvd hbs
      obtain ⟨hfull, rfl⟩ := pushStep_refusing (hs.producer pc active) hold hrefusing hpush
      refine ⟨tr, [], rfl, by simp, ?_⟩
      have hbound := hs.bounded
      have hlen := congrArg List.length hfifo
      simp only [List.length_append, Memory.length_contents] at hlen
      omega
  | returnPush => cases hpc'
  | pop active hpop => exact (ih pc' hpc' hrefusing).append (popStep_events hpop).2.2
  | snapshot active hsnap => exact (ih pc' hpc' hrefusing).append (snapshotStep_events hsnap).2.2
  | beginPop | returnPop | record | beginSnapshot | returnSnapshot =>
    exact (ih pc' hpc' hrefusing).append (by simp)

def PopPc.reading (C : Capacity w) : PopPc w → Option (Fin C.size)
  | .readSlot tail | .storeTail tail _ => some (slot C.size tail)
  | _ => none

/-- While the producer is about to write the slot of `head`, every undelivered
frame sits in another slot and so does whatever the consumer reads. -/
def WriteExclusive (s : State C) (tr : List Event) : Prop :=
  ∀ frame head tail, s.producer = some (.writeSlot frame head tail) →
    (∀ k f, (undelivered tr)[k]? = some f →
      s.memory.frames (slot C.size (s.memory.tail + BitVec.ofNat w k)) = f ∧
        slot C.size (s.memory.tail + BitVec.ofNat w k) ≠ slot C.size head) ∧
    ∀ pc i, s.consumer = some pc → pc.reading C = some i → i ≠ slot C.size head

theorem undelivered_eq {tr : List Event} {q : List RawCanFrame}
    (h : delivered tr ++ q = published tr) : undelivered tr = q := by
  rw [undelivered, ← h, List.drop_left]

theorem run_writeExclusive (hdvd : C.size ∣ 2 ^ w) {m : Memory C} {as : List Action}
    {s : State C} {tr : List Event}
    (hrun : (machine C).run (cleared m) as = some (s, tr)) : WriteExclusive s tr := by
  obtain ⟨hs, hfifo⟩ := run_fifo hdvd hrun
  intro frame head tail hpc
  obtain ⟨rfl, hfree⟩ := hs.producer _ hpc
  refine ⟨fun k f hk => ?_, fun pc i hconsumer hi => ?_⟩
  · rw [undelivered_eq hfifo] at hk
    have hlt : k < s.memory.held := by
      rw [← Memory.length_contents]
      exact (List.getElem?_eq_some_iff.mp hk).1
    rw [Memory.contents_eq, getElem?_window _ _ hlt] at hk
    exact ⟨Option.some.inj hk, s.memory.slot_head_ne hdvd hfree hlt⟩
  · have hsound := hs.consumer pc hconsumer
    cases pc with
    | readSlot tail =>
      obtain ⟨rfl, hpos⟩ := hsound
      cases hi
      exact s.memory.slot_tail_ne_head hdvd hfree hpos
    | storeTail tail frame =>
      obtain ⟨rfl, hpos, -⟩ := hsound
      cases hi
      exact s.memory.slot_tail_ne_head hdvd hfree hpos
    | _ => cases hi

/-- The single-producer single-consumer contract of the ring, for every
interleaving of atomic steps and every number of index wraps. -/
theorem spsc_fifo (hdvd : C.size ∣ 2 ^ w) (m : Memory C) {as : List Action} {s : State C}
    {tr : List Event} (hrun : (machine C).run (cleared m) as = some (s, tr)) :
    returned tr <+: published tr ∧
      (published tr).length ≤ (delivered tr).length + C.size ∧
      WriteExclusive s tr ∧
      (s.producer = some (.done false) → FullAtTailLoad C tr) := by
  obtain ⟨hs, hfifo⟩ := run_fifo hdvd hrun
  refine ⟨?_, ?_, run_writeExclusive hdvd hrun, fun hpc => run_refusal hdvd hrun _ hpc trivial⟩
  · rw [← hfifo, run_handover hrun, List.append_assoc]
    exact List.prefix_append _ _
  · have hbound := hs.bounded
    rw [← hfifo, List.length_append, Memory.length_contents]
    omega

/-- Two slots under two-bit indices, so that the indices wrap after four frames. -/
def tinyCapacity : Capacity 2 := ⟨2, by decide, by decide⟩

/-- Five frames go in and three come out while both indices pass the wrap; a
sixth `push` has found the ring full and is about to return false. -/
def wrapSchedule : List Action :=
  let push (id : UInt32) (steps : ℕ) : List Action :=
    .beginPush { identifier := id } :: List.replicate steps (.producer false)
  let pop : List Action := .beginPop :: List.replicate 6 .consumer
  push 1 9 ++ push 2 9 ++ pop ++ pop ++ push 3 8 ++ push 4 8 ++ pop ++ push 5 8 ++ push 6 5

theorem spsc_fifo_wrapping : ∃ s tr,
    (machine tinyCapacity).run (cleared {}) wrapSchedule = some (s, tr) ∧ s.memory.head = 1#2 ∧
      (returned tr).map (·.identifier) = [1, 2, 3] ∧ s.producer = some (.done false) ∧
      returned tr <+: published tr ∧ FullAtTailLoad tinyCapacity tr := by
  have hobserved : ((machine tinyCapacity).run (cleared {}) wrapSchedule).map (fun p =>
      (p.1.memory.head, (returned p.2).map (·.identifier), p.1.producer)) =
      some (1#2, [1, 2, 3], some (.done false)) := by decide
  obtain ⟨⟨s, tr⟩, hrun, heq⟩ := Option.map_eq_some_iff.mp hobserved
  simp only [Prod.mk.injEq] at heq
  obtain ⟨hreceived, -, -, hrefused⟩ := spsc_fifo (by decide) {} hrun
  exact ⟨s, tr, hrun, heq.1, heq.2.1, heq.2.2, hreceived, hrefused heq.2.2⟩

end FrameRing
end CanBus
end VehicleCanCore

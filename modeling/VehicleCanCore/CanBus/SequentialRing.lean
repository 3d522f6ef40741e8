import VehicleCanCore.CanBus.FrameRingFifo

/-!
# The frame ring, one call at a time

With nothing else running every member of the ring is a function of its memory,
whatever compare-exchanges fail spuriously on the way. The bounded queue is the
purpose of the ring; the two answer every sequence of calls alike exactly for
the capacities that divide the range of the indices and fit the reported depth.
-/

namespace VehicleCanCore
namespace CanBus
namespace FrameRing

open VehicleCanCore.Core Automata CircularWindow

variable {w : ℕ} {C : Capacity w}

namespace Memory

/-- `update_watermark` and `ensure_watermark_at_least`. -/
def raiseWatermark (m : Memory C) (depth : BitVec 32) : Memory C :=
  if m.queueHighWatermark < depth then { m with queueHighWatermark := depth } else m

/-- The rest of `push` once the frame is in its slot. -/
def publish (m : Memory C) : Memory C :=
  (m.advanceHead.raiseWatermark ((m.head + 1#w - m.tail).setWidth 32)).fetchAdd .framesQueued 1

/-- `push` after the frame has been counted. -/
def offer (m : Memory C) (frame : RawCanFrame) : Memory C × Bool :=
  if C.size ≤ (m.head - m.tail).toNat then
    ((m.fetchAdd .framesDropped 1).fetchAdd .queueOverflows 1, false)
  else ((m.storeSlot m.head frame).publish, true)

def push (m : Memory C) (frame : RawCanFrame) : Memory C × Bool :=
  (m.fetchAdd .framesReceived 1).offer frame

def pop (m : Memory C) : Memory C × Option RawCanFrame :=
  if m.tail = m.head then (m, none)
  else (m.advanceTail.fetchAdd .framesDelivered 1, some (m.frames (slot C.size m.tail)))

/-- `depth()` between calls, when its first sample is coherent. -/
def depth (m : Memory C) : BitVec 32 := (m.head - m.tail).setWidth 32

def collect (operation : StatisticsOperation) :
    Memory C → Statistics → List Counter → Memory C × Statistics
  | m, result, k :: ks =>
    match operation with
    | .snapshotAndReset => collect operation (m.exchange k 0) (result.record k (m.counters k)) ks
    | .snapshot => collect operation m (result.record k (m.counters k)) ks
  | m, result, [] =>
    match operation with
    | .snapshotAndReset =>
      ({ m with queueHighWatermark := result.queueDepth }.raiseWatermark m.depth,
        { result with queueHighWatermark := m.queueHighWatermark })
    | .snapshot => (m, { result with queueHighWatermark := m.queueHighWatermark })

def snapshot (m : Memory C) (operation : StatisticsOperation) : Memory C × Statistics :=
  m.collect operation { queueDepth := m.depth, queueCapacity := BitVec.ofNat 32 C.size } Counter.all

theorem sameQueue_raiseWatermark (m : Memory C) (depth : BitVec 32) :
    SameQueue m (m.raiseWatermark depth) := by
  unfold raiseWatermark
  split_ifs
  · exact m.sameQueue_watermark depth
  · exact m.sameQueue_refl

end Memory

/-! ## How far a call is from its end -/

/-- Distance of `coherent_depth` from its end; a tail that has moved costs a round. -/
def DepthPc.distance (m : Memory C) : DepthPc w → ℕ
  | .tailBefore => 3
  | .head before => if before = m.tail then 2 else 5
  | .tailAfter before sampled =>
    if before = m.tail ∧ (sampled - m.tail).toNat ≤ C.size then 1 else 4

def SnapshotPc.distance (m : Memory C) : SnapshotPc w → ℕ
  | .depth _ pc => 8 + Counter.all.length + pc.distance m
  | .counters _ _ remaining => 8 + remaining.length
  | .reconcileDepth _ pc => 2 + pc.distance m
  | .loadWatermark _ _ => 2
  | .raiseWatermark _ _ watermark => if m.queueHighWatermark = watermark then 1 else 2
  | .done _ _ => 0

def ClearPc.distance (m : Memory C) : ClearPc w → ℕ
  | .loadHead => 15 + Counter.all.length
  | .storeTail _ => 14 + Counter.all.length
  | .snapshot pc => 2 + pc.distance m
  | .storeWatermark => 1
  | .done => 0

theorem DepthPc.distance_pos (m : Memory C) (pc : DepthPc w) : 0 < pc.distance m := by
  cases pc with
  | tailBefore => exact Nat.zero_lt_succ 2
  | head before | tailAfter before sampled =>
    simp only [distance]
    split_ifs <;> omega

theorem depthStep_distance {m : Memory C} (hheld : m.held ≤ C.size) {pc pc' : DepthPc w}
    (h : depthStep m pc = .inl pc') : pc'.distance m < pc.distance m := by
  cases pc with
  | tailBefore =>
    cases h
    simp only [DepthPc.distance, if_true]
    omega
  | head before =>
    cases h
    by_cases htail : before = m.tail
    · have hexact : before = m.tail ∧ (m.head - m.tail).toNat ≤ C.size := ⟨htail, hheld⟩
      simp only [DepthPc.distance, if_pos hexact, if_pos htail]
      omega
    · have hmoved : ¬ (before = m.tail ∧ (m.head - m.tail).toNat ≤ C.size) := fun h => htail h.1
      simp only [DepthPc.distance, if_neg hmoved, if_neg htail]
      omega
  | tailAfter before sampled =>
    simp only [depthStep] at h
    split_ifs at h with hmoved hsize <;> cases h
    · simp only [DepthPc.distance, if_neg fun h : before = m.tail ∧ _ => hmoved h.1]
      omega
    · simp only [DepthPc.distance, if_neg fun h : before = m.tail ∧ _ => hsize h.2]
      omega

theorem SnapshotPc.distance_afterWatermark (m : Memory C) (result : Statistics)
    (depth : BitVec 32) :
    (afterWatermark result depth m.queueHighWatermark : SnapshotPc w).distance m ≤ 1 := by
  unfold afterWatermark
  split_ifs <;> simp [SnapshotPc.distance]

theorem snapshotStep_advances {m : Memory C} (hheld : m.held ≤ C.size) (pc : SnapshotPc w) :
    (∃ operation result, pc = .done operation result) ∨
      ∃ m' pc' es, snapshotStep m false pc = some (m', pc', es) ∧
        pc'.distance m' < pc.distance m := by
  cases pc with
  | depth operation pc =>
    right
    simp only [snapshotStep]
    cases hdepth : depthStep m pc with
    | inl pc' =>
      have hlt := depthStep_distance hheld hdepth
      exact ⟨_, _, _, rfl, by simp only [SnapshotPc.distance]; omega⟩
    | inr depth =>
      have hpos := pc.distance_pos m
      exact ⟨_, _, _, rfl, by simp only [SnapshotPc.distance]; omega⟩
  | counters operation result remaining =>
    right
    cases operation <;> cases remaining <;>
      exact ⟨_, _, _, rfl, by simp [SnapshotPc.distance, DepthPc.distance]⟩
  | reconcileDepth result pc =>
    right
    simp only [snapshotStep]
    cases hdepth : depthStep m pc with
    | inl pc' =>
      have hlt := depthStep_distance hheld hdepth
      exact ⟨_, _, _, rfl, by simp only [SnapshotPc.distance]; omega⟩
    | inr depth =>
      have hpos := pc.distance_pos m
      exact ⟨_, _, _, rfl, by simp only [SnapshotPc.distance]; omega⟩
  | loadWatermark result depth =>
    have hle := SnapshotPc.distance_afterWatermark m result depth
    exact .inr ⟨_, _, _, rfl, Nat.lt_of_le_of_lt hle (by simp [SnapshotPc.distance])⟩
  | raiseWatermark result depth watermark =>
    right
    by_cases hsame : m.queueHighWatermark = watermark
    · exact ⟨_, _, _, if_pos ⟨rfl, hsame⟩, by simp [SnapshotPc.distance, hsame]⟩
    · have hle := SnapshotPc.distance_afterWatermark m result depth
      refine ⟨_, _, _, if_neg fun hboth => hsame hboth.2, Nat.lt_of_le_of_lt hle ?_⟩
      simp [SnapshotPc.distance, hsame]
  | done operation result => exact .inl ⟨_, _, rfl⟩

/-- The snapshot inside `clear` finds no overfull ring. -/
def ClearPc.Bounded (m : Memory C) : ClearPc w → Prop
  | .snapshot _ => m.held ≤ C.size
  | _ => True

theorem ClearPc.bounded_of_held {m : Memory C} (hheld : m.held ≤ C.size) (pc : ClearPc w) :
    pc.Bounded m := by
  cases pc with
  | snapshot => exact hheld
  | _ => trivial

theorem clearStep_advances {m : Memory C} {pc : ClearPc w} (hpc : pc.Bounded m) :
    pc = .done ∨ ∃ m' pc' es, clearStep m false pc = some (m', pc', es) ∧
      pc'.distance m' < pc.distance m := by
  cases pc with
  | loadHead | storeWatermark =>
    exact .inr ⟨_, _, _, rfl, by simp [ClearPc.distance]⟩
  | storeTail head =>
    refine .inr ⟨_, _, _, rfl, ?_⟩
    simp only [ClearPc.distance, SnapshotPc.distance, DepthPc.distance]
    omega
  | snapshot pc =>
    right
    rcases snapshotStep_advances hpc pc with ⟨operation, result, rfl⟩ | ⟨m', pc', es, hstep, hlt⟩
    · exact ⟨m, .storeWatermark, [], rfl, by simp [ClearPc.distance, SnapshotPc.distance]⟩
    · refine ⟨m', .snapshot pc', es, ?_, by simpa [ClearPc.distance] using hlt⟩
      cases pc with
      | done => cases hstep
      | _ => simp [clearStep, hstep]
  | done => exact .inl rfl

/-! ## A call with nothing else running -/

/-- The steps of one call; the schedule says which compare-exchanges fail spuriously. -/
def alone {P : Type} (step : Memory C → Bool → P → Option (Memory C × P × List Event)) :
    Machine (Memory C × P) Bool Event where
  step s spurious := (step s.1 spurious s.2).map fun (m, pc, es) => ((m, pc), es)

theorem alone_step {P : Type} {step : Memory C → Bool → P → Option (Memory C × P × List Event)}
    {s t : Memory C × P} {spurious : Bool} {es : List Event} :
    (alone step).step s spurious = some (t, es) ↔ step s.1 spurious s.2 = some (t.1, t.2, es) := by
  simp only [alone, Option.map_eq_some_iff, Prod.exists, Prod.mk.injEq]
  constructor
  · rintro ⟨m, pc, es, h, rfl, rfl⟩
    exact h
  · intro h
    exact ⟨t.1, t.2, es, h, rfl, rfl⟩

/-- If every step keeps the outcome that lies ahead and some step always comes
closer to the end, a call ends in that outcome and in no other. -/
theorem alone_reaches_iff {P R : Type}
    (step : Memory C → Bool → P → Option (Memory C × P × List Event)) (done : R → P)
    (rank : Memory C → P → ℕ) (Leads : Memory C → P → Prop) {result : Memory C × R}
    (hstep : ∀ {m m' : Memory C} {spurious : Bool} {pc pc' : P} {es : List Event},
      Leads m pc → step m spurious pc = some (m', pc', es) → Leads m' pc')
    (hprogress : ∀ {m : Memory C} {pc : P}, Leads m pc → (∃ r, pc = done r) ∨
      ∃ m' pc' es, step m false pc = some (m', pc', es) ∧ rank m' pc' < rank m pc)
    (hdone : ∀ {m : Memory C} {r : R}, Leads m (done r) → (m, r) = result)
    {m : Memory C} {pc : P} (h : Leads m pc) (m' : Memory C) (r : R) :
    (alone step).Reachable (m, pc) (m', done r) ↔ (m', r) = result := by
  have hkeep : ∀ {s t : Memory C × P} {as : List Bool} {es : List Event}, Leads s.1 s.2 →
      (alone step).run s as = some (t, es) → Leads t.1 t.2 :=
    (alone step).run_preserves (I := fun s => Leads s.1 s.2) fun s a t es hs ht =>
      hstep hs (alone_step.mp ht)
  constructor
  · rintro ⟨as, es, hrun⟩
    have hend := hkeep (s := (m, pc)) h hrun
    exact hdone hend
  · rintro rfl
    have hnext : ∀ s : Memory C × P, Leads s.1 s.2 → (∃ r, s.2 = done r) ∨
        ∃ a t es, True ∧ (alone step).step s a = some (t, es) ∧ Leads t.1 t.2 ∧
          rank t.1 t.2 < rank s.1 s.2 := by
      intro s hs
      rcases hprogress hs with hend | ⟨n, pc', es, ht, hlt⟩
      · exact .inl hend
      · exact .inr ⟨false, (n, pc'), es, trivial, alone_step.mpr ht, hstep hs ht, hlt⟩
    obtain ⟨as, ⟨n, pc'⟩, es, -, hrun, hlead, r', hr'⟩ :=
      (alone step).exists_run_of_rank (C := fun _ _ => True) (fun s => rank s.1 s.2) hnext
        (s := (m, pc)) h
    obtain rfl : pc' = done r' := hr'
    obtain ⟨rfl, rfl⟩ := Prod.mk.inj (hdone hlead)
    exact ⟨as, es, hrun⟩

def PushPc.Leads (result : Memory C × Bool) (m : Memory C) : PushPc w → Prop
  | .countReceived frame => m.push frame = result
  | .loadHead frame => m.offer frame = result
  | .loadTail frame head => head = m.head ∧ m.offer frame = result
  | .countDropped => ((m.fetchAdd .framesDropped 1).fetchAdd .queueOverflows 1, false) = result
  | .countOverflow => (m.fetchAdd .queueOverflows 1, false) = result
  | .writeSlot frame head tail =>
    head = m.head ∧ tail = m.tail ∧ ((m.storeSlot m.head frame).publish, true) = result
  | .storeHead _ head tail => head = m.head ∧ tail = m.tail ∧ (m.publish, true) = result
  | .loadWatermark depth => ((m.raiseWatermark depth).fetchAdd .framesQueued 1, true) = result
  | .raiseWatermark depth watermark =>
    watermark = m.queueHighWatermark ∧ watermark < depth ∧
      (({ m with queueHighWatermark := depth } : Memory C).fetchAdd .framesQueued 1, true) = result
  | .countQueued => (m.fetchAdd .framesQueued 1, true) = result
  | .done accepted => (m, accepted) = result

def PushPc.rank : PushPc w → ℕ
  | .countReceived _ => 9
  | .loadHead _ => 8
  | .loadTail _ _ => 7
  | .writeSlot _ _ _ => 6
  | .storeHead _ _ _ => 5
  | .loadWatermark _ => 4
  | .raiseWatermark _ _ => 3
  | .countDropped => 2
  | .countOverflow | .countQueued => 1
  | .done _ => 0

theorem PushPc.leads_afterWatermark {result : Memory C × Bool} {m : Memory C} {depth : BitVec 32}
    (h : ((m.raiseWatermark depth).fetchAdd .framesQueued 1, true) = result) :
    (PushPc.afterWatermark depth m.queueHighWatermark : PushPc w).Leads result m := by
  unfold Memory.raiseWatermark at h
  unfold PushPc.afterWatermark
  by_cases hlow : m.queueHighWatermark < depth
  · rw [if_pos hlow] at h ⊢
    exact ⟨rfl, hlow, h⟩
  · rw [if_neg hlow] at h ⊢
    exact h

theorem pushStep_leads {result : Memory C × Bool} {m m' : Memory C} {spurious : Bool}
    {pc pc' : PushPc w} {es : List Event} (hlead : pc.Leads result m)
    (h : pushStep m spurious pc = some (m', pc', es)) : pc'.Leads result m' := by
  cases pc with
  | loadTail frame head =>
    obtain ⟨rfl, hresult⟩ := hlead
    unfold Memory.offer at hresult
    simp only [pushStep] at h
    split_ifs at h hresult with hfull <;> cases h
    · exact hresult
    · exact ⟨rfl, rfl, hresult⟩
  | writeSlot frame head tail =>
    obtain ⟨rfl, rfl, hresult⟩ := hlead
    cases h
    exact ⟨rfl, rfl, hresult⟩
  | storeHead frame head tail =>
    obtain ⟨rfl, rfl, hresult⟩ := hlead
    cases h
    exact hresult
  | loadWatermark depth =>
    cases h
    exact PushPc.leads_afterWatermark hlead
  | raiseWatermark depth watermark =>
    obtain ⟨rfl, hlow, hresult⟩ := hlead
    simp only [pushStep] at h
    split_ifs at h with hexchange <;> cases h
    · exact hresult
    · refine PushPc.leads_afterWatermark ?_
      rwa [Memory.raiseWatermark, if_pos hlow]
  | loadHead frame =>
    cases h
    exact ⟨rfl, hlead⟩
  | countReceived frame | countDropped | countOverflow | countQueued =>
    cases h
    exact hlead
  | done accepted => cases h

theorem PushPc.Leads.progress {result : Memory C × Bool} {m : Memory C} {pc : PushPc w}
    (h : pc.Leads result m) : (∃ accepted, pc = .done accepted) ∨
      ∃ m' pc' es, pushStep m false pc = some (m', pc', es) ∧ pc'.rank < pc.rank := by
  cases pc with
  | loadTail frame head =>
    right
    by_cases hfull : C.size ≤ (head - m.tail).toNat
    · exact ⟨_, _, _, if_pos hfull, by simp [PushPc.rank]⟩
    · exact ⟨_, _, _, if_neg hfull, by simp [PushPc.rank]⟩
  | loadWatermark depth =>
    refine .inr ⟨_, _, _, rfl, ?_⟩
    unfold PushPc.afterWatermark
    split_ifs <;> simp [PushPc.rank]
  | raiseWatermark depth watermark =>
    exact .inr ⟨_, _, _, if_pos ⟨rfl, h.1.symm⟩, by simp [PushPc.rank]⟩
  | done accepted => exact .inl ⟨accepted, rfl⟩
  | _ => exact .inr ⟨_, _, _, rfl, by simp [PushPc.rank]⟩

/-- `push` with nothing else running returns, and what it does is `Memory.push`. -/
theorem push_alone (m : Memory C) (frame : RawCanFrame) (m' : Memory C) (accepted : Bool) :
    (alone pushStep).Reachable (m, .countReceived frame) (m', .done accepted) ↔
      (m', accepted) = m.push frame := by
  have hlead : (PushPc.countReceived frame : PushPc w).Leads (m.push frame) m := rfl
  exact alone_reaches_iff pushStep .done (fun _ => PushPc.rank) (PushPc.Leads (m.push frame))
    pushStep_leads PushPc.Leads.progress id hlead m' accepted

theorem run_producer {s : State C} {m m' : Memory C} {pc pc' : PushPc w} {bs : List Bool}
    {es : List Event} (h : (alone pushStep).run (m, pc) bs = some ((m', pc'), es)) :
    (machine C).run { s with memory := m, producer := some pc } (bs.map .producer) =
      some ({ s with memory := m', producer := some pc' }, es) := by
  induction bs generalizing m pc es with
  | nil =>
    cases h
    rfl
  | cons b bs ih =>
    obtain ⟨⟨n, qc⟩, fs, gs, hstep, hrun, rfl⟩ := (alone pushStep).run_cons.mp h
    have hpush : pushStep m b pc = some (n, qc, fs) := alone_step.mp hstep
    refine (machine C).run_cons.mpr ⟨_, fs, gs, ?_, ih hrun, rfl⟩
    cases pc with
    | done => cases hpush
    | _ => simp only [machine, step, hpush, Option.map_some]

theorem reachable_push {s : State C} (hidle : s.producer = none) (frame : RawCanFrame) :
    (machine C).Reachable s { s with memory := (s.memory.push frame).1 } := by
  obtain ⟨bs, es, hpush⟩ := (push_alone s.memory frame _ _).mpr rfl
  have hbegin : (machine C).run s [.beginPush frame] =
      some ({ s with producer := some (.countReceived frame) }, []) := by
    simp [machine, step, hidle]
  have hreturn : (machine C).run
      { s with memory := (s.memory.push frame).1, producer := some (.done (s.memory.push frame).2) }
      [.producer false] = some ({ s with memory := (s.memory.push frame).1 },
        [.pushReturned (s.memory.push frame).2]) := by
    simp [machine, step, hidle]
  have hbegun := ((machine C).reachable_refl s).run hbegin
  exact (hbegun.run (run_producer hpush)).run hreturn

def PopPc.Leads (result : Memory C × Option RawCanFrame) (m : Memory C) : PopPc w → Prop
  | .loadTail => m.pop = result
  | .loadHead tail => tail = m.tail ∧ m.pop = result
  | .readSlot tail =>
    tail = m.tail ∧
      (m.advanceTail.fetchAdd .framesDelivered 1, some (m.frames (slot C.size m.tail))) = result
  | .storeTail tail frame =>
    tail = m.tail ∧ (m.advanceTail.fetchAdd .framesDelivered 1, some frame) = result
  | .countDelivered frame => (m.fetchAdd .framesDelivered 1, some frame) = result
  | .done frame => (m, frame) = result

def PopPc.rank : PopPc w → ℕ
  | .loadTail => 5
  | .loadHead _ => 4
  | .readSlot _ => 3
  | .storeTail _ _ => 2
  | .countDelivered _ => 1
  | .done _ => 0

theorem popStep_leads {result : Memory C × Option RawCanFrame} {m m' : Memory C}
    {pc pc' : PopPc w} {es : List Event} (hlead : pc.Leads result m)
    (h : popStep m pc = some (m', pc', es)) : pc'.Leads result m' := by
  cases pc with
  | loadTail =>
    cases h
    exact ⟨rfl, hlead⟩
  | loadHead tail =>
    obtain ⟨rfl, hresult⟩ := hlead
    unfold Memory.pop at hresult
    simp only [popStep] at h
    split_ifs at h hresult with hempty <;> cases h
    · exact hresult
    · exact ⟨rfl, hresult⟩
  | readSlot tail | storeTail tail frame =>
    obtain ⟨rfl, hresult⟩ := hlead
    cases h
    first | exact hresult | exact ⟨rfl, hresult⟩
  | countDelivered frame =>
    cases h
    exact hlead
  | done frame => cases h

theorem PopPc.progress (m : Memory C) (pc : PopPc w) : (∃ frame, pc = .done frame) ∨
    ∃ m' pc' es, popStep m pc = some (m', pc', es) ∧ pc'.rank < pc.rank := by
  cases pc with
  | loadHead tail =>
    right
    by_cases hempty : tail = m.head
    · exact ⟨_, _, _, if_pos hempty, by simp [PopPc.rank]⟩
    · exact ⟨_, _, _, if_neg hempty, by simp [PopPc.rank]⟩
  | done frame => exact .inl ⟨frame, rfl⟩
  | _ => exact .inr ⟨_, _, _, rfl, by simp [PopPc.rank]⟩

theorem pop_alone (m m' : Memory C) (frame : Option RawCanFrame) :
    (alone fun m _ pc => popStep m pc).Reachable (m, .loadTail) (m', .done frame) ↔
      (m', frame) = m.pop := by
  have hlead : (PopPc.loadTail : PopPc w).Leads m.pop m := rfl
  exact alone_reaches_iff (fun m _ pc => popStep m pc) .done (fun _ => PopPc.rank)
    (PopPc.Leads m.pop) popStep_leads (fun {m pc} _ => pc.progress m) id hlead m' frame

/-- The loads that `coherent_depth` has made so far are all still exact. -/
def DepthPc.Coherent (m : Memory C) : DepthPc w → Prop
  | .tailBefore => True
  | .head before => before = m.tail
  | .tailAfter before sampled => before = m.tail ∧ sampled = m.head

theorem depthStep_cases {m : Memory C} (hheld : m.held ≤ C.size) {pc : DepthPc w}
    (h : pc.Coherent m) :
    (∃ pc', depthStep m pc = .inl pc' ∧ pc'.Coherent m) ∨ depthStep m pc = .inr m.depth := by
  cases pc with
  | tailBefore => exact .inl ⟨_, rfl, rfl⟩
  | head tailBefore =>
    obtain rfl : tailBefore = m.tail := h
    exact .inl ⟨_, rfl, rfl, rfl⟩
  | tailAfter tailBefore head =>
    obtain ⟨rfl, rfl⟩ := h
    right
    unfold Memory.held at hheld
    simp only [depthStep, ne_eq, not_true_eq_false, if_false, if_pos hheld]
    rfl

def SnapshotPc.Leads (operation : StatisticsOperation) (result : Memory C × Statistics)
    (m : Memory C) : SnapshotPc w → Prop
  | .depth requested pc =>
    requested = operation ∧ m.held ≤ C.size ∧ pc.Coherent m ∧ m.snapshot operation = result
  | .counters requested collected remaining =>
    requested = operation ∧ m.held ≤ C.size ∧ m.collect operation collected remaining = result
  | .reconcileDepth collected pc =>
    operation = .snapshotAndReset ∧ m.held ≤ C.size ∧ pc.Coherent m ∧
      (m.raiseWatermark m.depth, collected) = result
  | .loadWatermark collected level =>
    operation = .snapshotAndReset ∧ (m.raiseWatermark level, collected) = result
  | .raiseWatermark collected level watermark =>
    operation = .snapshotAndReset ∧ watermark = m.queueHighWatermark ∧ watermark < level ∧
      (({ m with queueHighWatermark := level } : Memory C), collected) = result
  | .done requested collected => requested = operation ∧ (m, collected) = result

theorem SnapshotPc.leads_afterWatermark {result : Memory C × Statistics} {m : Memory C}
    {collected : Statistics} {depth : BitVec 32}
    (h : (m.raiseWatermark depth, collected) = result) :
    (SnapshotPc.afterWatermark collected depth m.queueHighWatermark : SnapshotPc w).Leads
      .snapshotAndReset result m := by
  unfold Memory.raiseWatermark at h
  unfold SnapshotPc.afterWatermark
  by_cases hlow : m.queueHighWatermark < depth
  · rw [if_pos hlow] at h ⊢
    exact ⟨rfl, rfl, hlow, h⟩
  · rw [if_neg hlow] at h ⊢
    exact ⟨rfl, h⟩

theorem snapshotStep_leads {operation : StatisticsOperation} {result : Memory C × Statistics}
    {m m' : Memory C} {spurious : Bool} {pc pc' : SnapshotPc w} {es : List Event}
    (hlead : pc.Leads operation result m)
    (h : snapshotStep m spurious pc = some (m', pc', es)) : pc'.Leads operation result m' := by
  cases pc with
  | depth requested pc =>
    obtain ⟨rfl, hheld, hcoherent, hresult⟩ := hlead
    rcases depthStep_cases hheld hcoherent with ⟨next, hnext, hstill⟩ | hdepth
    · simp only [snapshotStep, hnext] at h
      cases h
      exact ⟨rfl, hheld, hstill, hresult⟩
    · simp only [snapshotStep, hdepth] at h
      cases h
      exact ⟨rfl, hheld, hresult⟩
  | counters requested collected remaining =>
    obtain ⟨rfl, hheld, hresult⟩ := hlead
    cases requested <;> cases remaining <;> cases h
    · exact ⟨rfl, hresult⟩
    · exact ⟨rfl, hheld, hresult⟩
    · exact ⟨rfl, hheld, trivial, hresult⟩
    · exact ⟨rfl, hheld, hresult⟩
  | reconcileDepth collected pc =>
    obtain ⟨rfl, hheld, hcoherent, hresult⟩ := hlead
    rcases depthStep_cases hheld hcoherent with ⟨next, hnext, hstill⟩ | hdepth
    · simp only [snapshotStep, hnext] at h
      cases h
      exact ⟨rfl, hheld, hstill, hresult⟩
    · simp only [snapshotStep, hdepth] at h
      cases h
      exact ⟨rfl, hresult⟩
  | loadWatermark collected depth =>
    obtain ⟨rfl, hresult⟩ := hlead
    cases h
    exact SnapshotPc.leads_afterWatermark hresult
  | raiseWatermark collected depth watermark =>
    obtain ⟨rfl, rfl, hlow, hresult⟩ := hlead
    simp only [snapshotStep] at h
    split_ifs at h with hexchange <;> cases h
    · exact ⟨rfl, hresult⟩
    · refine SnapshotPc.leads_afterWatermark ?_
      rwa [Memory.raiseWatermark, if_pos hlow]
  | done requested collected => cases h

theorem snapshot_alone {m : Memory C} (hheld : m.held ≤ C.size)
    (operation : StatisticsOperation) (m' : Memory C) (result : Statistics) :
    (alone snapshotStep).Reachable (m, .depth operation .tailBefore)
      (m', .done operation result) ↔ (m', result) = m.snapshot operation := by
  have hlead : (SnapshotPc.depth operation .tailBefore : SnapshotPc w).Leads operation
      (m.snapshot operation) m := ⟨rfl, hheld, trivial, rfl⟩
  have hprogress : ∀ {n : Memory C} {pc : SnapshotPc w},
      n.held ≤ C.size ∧ pc.Leads operation (m.snapshot operation) n →
        (∃ r, pc = .done operation r) ∨ ∃ n' pc' es,
          snapshotStep n false pc = some (n', pc', es) ∧ pc'.distance n' < pc.distance n := by
    rintro n pc ⟨hheld, hlead⟩
    refine (snapshotStep_advances hheld pc).imp_left ?_
    rintro ⟨requested, result, rfl⟩
    obtain ⟨rfl, -⟩ := hlead
    exact ⟨result, rfl⟩
  refine alone_reaches_iff snapshotStep (SnapshotPc.done operation)
    (fun n pc => pc.distance n) (fun n pc => n.held ≤ C.size ∧ pc.Leads operation _ n)
    (fun h hstep => ⟨?_, snapshotStep_leads h.2 hstep⟩) hprogress (fun h => h.2.2)
    ⟨hheld, hlead⟩ m' result
  rw [(snapshotStep_sameQueue hstep).1.held_eq]
  exact h.1

theorem sameQueue_collect (operation : StatisticsOperation) (ks : List Counter) (m : Memory C)
    (result : Statistics) : m.SameQueue (m.collect operation result ks).1 := by
  induction ks generalizing m result with
  | nil =>
    cases operation with
    | snapshot => exact m.sameQueue_refl
    | snapshotAndReset =>
      exact (m.sameQueue_watermark _).trans (Memory.sameQueue_raiseWatermark _ _)
  | cons k ks ih =>
    cases operation with
    | snapshot => exact ih m _
    | snapshotAndReset => exact (m.sameQueue_exchange k 0).trans (ih _ _)

theorem collect_queueDepth (operation : StatisticsOperation) (ks : List Counter) (m : Memory C)
    (result : Statistics) : (m.collect operation result ks).2.queueDepth = result.queueDepth := by
  induction ks generalizing m result with
  | nil => cases operation <;> rfl
  | cons k ks ih => cases operation <;> exact ih _ _

theorem collect_reset (ks : List Counter) (m : Memory C) (result : Statistics) :
    (m.collect .snapshotAndReset result ks).1 =
      ({ m with
        counters := ks.foldl (fun f k => Function.update f k 0) m.counters
        queueHighWatermark := result.queueDepth } : Memory C).raiseWatermark m.depth := by
  induction ks generalizing m result with
  | nil => rfl
  | cons k ks ih => exact ih (m.exchange k 0) _

theorem Memory.clear_eq (m : Memory C) : m.clear =
    { (({ m with tail := m.head } : Memory C).snapshot .snapshotAndReset).1 with
      queueHighWatermark := 0 } := by
  have hcounters : Counter.all.foldl (fun f k => Function.update f k 0) m.counters =
      fun _ => 0 := by
    funext k
    cases k <;> rfl
  have hdepth : ({ m with tail := m.head } : Memory C).depth = 0 := by
    simp [Memory.depth]
  rw [Memory.snapshot, collect_reset, hcounters, hdepth]
  rfl

def ClearPc.Leads (result m : Memory C) : ClearPc w → Prop
  | .loadHead => m.clear = result
  | .storeTail head => head = m.head ∧ m.clear = result
  | .snapshot pc =>
    ∃ target : Memory C × Statistics, pc.Leads .snapshotAndReset target m ∧
      { target.1 with queueHighWatermark := 0 } = result
  | .storeWatermark => { m with queueHighWatermark := 0 } = result
  | .done => m = result

theorem clearStep_leads {result m m' : Memory C} {spurious : Bool} {pc pc' : ClearPc w}
    {es : List Event} (hlead : pc.Leads result m)
    (h : clearStep m spurious pc = some (m', pc', es)) : pc'.Leads result m' := by
  cases pc with
  | loadHead =>
    cases h
    exact ⟨rfl, hlead⟩
  | storeTail head =>
    obtain ⟨rfl, rfl⟩ := hlead
    cases h
    refine ⟨_, ⟨rfl, ?_, trivial, rfl⟩, m.clear_eq.symm⟩
    simp [Memory.held]
  | snapshot pc =>
    obtain ⟨target, htarget, rfl⟩ := hlead
    cases pc with
    | done operation collected =>
      obtain ⟨-, rfl⟩ := htarget
      cases h
      rfl
    | _ =>
      simp only [clearStep, Option.map_eq_some_iff, Prod.exists] at h
      obtain ⟨n, pc', fs, hsnap, heq⟩ := h
      cases heq
      exact ⟨target, snapshotStep_leads htarget hsnap, rfl⟩
  | storeWatermark =>
    cases h
    exact hlead
  | done => cases h

theorem clearStep_bounded {result m m' : Memory C} {spurious : Bool} {pc pc' : ClearPc w}
    {es : List Event} (hpc : pc.Bounded m) (hlead : pc.Leads result m)
    (h : clearStep m spurious pc = some (m', pc', es)) : pc'.Bounded m' := by
  cases pc with
  | storeTail head =>
    obtain ⟨rfl, -⟩ := hlead
    cases h
    simp [ClearPc.Bounded, Memory.held]
  | snapshot pc =>
    cases pc with
    | done =>
      cases h
      trivial
    | _ =>
      simp only [clearStep, Option.map_eq_some_iff, Prod.exists] at h
      obtain ⟨n, pc', fs, hsnap, heq⟩ := h
      cases heq
      exact (snapshotStep_sameQueue hsnap).1.held_eq.trans_le hpc
  | done => cases h
  | _ =>
    cases h
    trivial

/-- `clear` with nothing else running, whichever compare-exchanges fail spuriously. -/
theorem clear_alone_iff (m m' : Memory C) :
    (alone clearStep).Reachable (m, .loadHead) (m', .done) ↔ m' = m.clear := by
  have hlead : (ClearPc.loadHead : ClearPc w).Bounded m ∧
      (ClearPc.loadHead : ClearPc w).Leads m.clear m := ⟨trivial, rfl⟩
  have hprogress : ∀ {n : Memory C} {pc : ClearPc w}, pc.Bounded n ∧ pc.Leads m.clear n →
      (∃ u : Unit, pc = (fun _ => .done) u) ∨ ∃ n' pc' es,
        clearStep n false pc = some (n', pc', es) ∧ pc'.distance n' < pc.distance n :=
    fun h => (clearStep_advances h.1).imp_left fun hdone => ⟨(), hdone⟩
  have hdone : ∀ {n : Memory C} {u : Unit}, (ClearPc.done : ClearPc w).Bounded n ∧
      (ClearPc.done : ClearPc w).Leads m.clear n → (n, u) = (m.clear, ()) := by
    rintro n u ⟨-, rfl⟩
    rfl
  have hiff := alone_reaches_iff clearStep (fun _ : Unit => ClearPc.done)
    (fun n pc => pc.distance n) (fun n pc => pc.Bounded n ∧ pc.Leads m.clear n)
    (fun h hstep => ⟨clearStep_bounded h.1 h.2 hstep, clearStep_leads h.2 hstep⟩) hprogress hdone
    hlead m' ()
  simpa using hiff

/-! ## Sequential runs -/

/-- A call on the ring that runs to its end before the next one begins. -/
inductive Call
  | push (frame : RawCanFrame)
  | pop
  | snapshot (operation : StatisticsOperation)
  | clear

def Call.queue : Call → QueueCall RawCanFrame
  | push frame => .enqueue frame
  | pop => .dequeue
  | snapshot _ => .count
  | clear => .clear

def Memory.execute (m : Memory C) : Call → Memory C × QueueAnswer RawCanFrame
  | .push frame => ((m.push frame).1, .enqueued (m.push frame).2)
  | .pop => (m.pop.1, .dequeued m.pop.2)
  | .snapshot operation =>
    ((m.snapshot operation).1, .counted (m.snapshot operation).2.queueDepth.toNat)
  | .clear => (m.clear, .cleared)

/-- Calls of a single thread, one after the other. -/
def sequential (C : Capacity w) : Machine (Memory C) Call (QueueAnswer RawCanFrame) where
  step m call := some ((m.execute call).1, [(m.execute call).2])

theorem Memory.sameQueue_publish_advanceHead (m : Memory C) : m.advanceHead.SameQueue m.publish :=
  (Memory.sameQueue_raiseWatermark _ _).trans (Memory.sameQueue_fetchAdd _ _ _)

theorem Memory.push_full {m : Memory C} (h : C.size ≤ m.held) (frame : RawCanFrame) :
    m.SameQueue (m.push frame).1 ∧ (m.push frame).2 = false := by
  have hoffer : m.push frame = ((((m.fetchAdd .framesReceived 1).fetchAdd .framesDropped 1).fetchAdd
      .queueOverflows 1), false) := if_pos h
  rw [hoffer]
  exact ⟨⟨rfl, rfl, rfl⟩, rfl⟩

theorem Memory.push_free {m : Memory C} (h : m.held < C.size) (frame : RawCanFrame) :
    (m.storeSlot m.head frame).advanceHead.SameQueue (m.push frame).1 ∧
      (m.push frame).2 = true := by
  have hoffer : m.push frame = (((m.fetchAdd .framesReceived 1).storeSlot m.head frame).publish,
      true) := if_neg (not_le.mpr h)
  rw [hoffer]
  exact ⟨Memory.sameQueue_publish_advanceHead _, rfl⟩

theorem Memory.pop_empty {m : Memory C} (h : m.held = 0) : m.pop = (m, none) := by
  have hhead := m.head_eq
  rw [h, BitVec.add_zero] at hhead
  exact if_pos hhead.symm

theorem Memory.pop_held {m : Memory C} (h : 0 < m.held) :
    m.advanceTail.SameQueue m.pop.1 ∧ m.pop.2 = some (m.frames (slot C.size m.tail)) := by
  have hne : m.tail ≠ m.head := by
    intro heq
    rw [Memory.held, heq, BitVec.sub_self] at h
    simp at h
  rw [Memory.pop, if_neg hne]
  exact ⟨⟨rfl, rfl, rfl⟩, rfl⟩

theorem Memory.depth_eq {m : Memory C} (h : m.held < 2 ^ 32) : m.depth.toNat = m.held := by
  unfold Memory.held at h
  simp only [Memory.depth, BitVec.toNat_setWidth, Memory.held]
  exact Nat.mod_eq_of_lt h

theorem Memory.snapshot_depth (m : Memory C) (operation : StatisticsOperation) :
    (m.snapshot operation).2.queueDepth = m.depth := collect_queueDepth _ _ _ _

theorem execute_answer (hdvd : C.size ∣ 2 ^ w) (hdepth : C.size < 2 ^ 32) {m : Memory C}
    (hheld : m.held ≤ C.size) (call : Call) :
    (m.execute call).1.held ≤ C.size ∧
      queueAnswer C.size m.contents call.queue =
        ((m.execute call).1.contents, (m.execute call).2) := by
  cases call with
  | push frame =>
    by_cases hfull : C.size ≤ m.held
    · obtain ⟨hsame, hrefused⟩ := m.push_full hfull frame
      refine ⟨hsame.held_eq.trans_le hheld, ?_⟩
      have hanswer : queueAnswer C.size m.contents (.enqueue frame) = _ :=
        queueAnswer_enqueue_full (by simpa using hfull) frame
      simp only [Call.queue, hanswer, Memory.execute, hrefused, hsame.contents_eq]
    · have hfree : m.held < C.size := by omega
      obtain ⟨hsame, haccepted⟩ := m.push_free hfree frame
      have hstored : (m.storeSlot m.head frame).held < C.size := hfree
      have hgrown := Memory.held_advanceHead _ hstored
      have hcontents : (m.push frame).1.contents = m.contents ++ [frame] := by
        rw [hsame.contents_eq, Memory.contents_advanceHead _ hstored,
          m.contents_storeSlot hdvd hfree]
        simp [Memory.storeSlot]
      refine ⟨hsame.held_eq.trans_le (hgrown.trans_le hfree), ?_⟩
      have hanswer : queueAnswer C.size m.contents (.enqueue frame) = _ :=
        queueAnswer_enqueue (by simpa using hfree) frame
      simp only [Call.queue, hanswer, Memory.execute, haccepted, hcontents]
  | pop =>
    by_cases hempty : m.held = 0
    · have hnil : m.contents = [] := List.eq_nil_of_length_eq_zero (by simpa using hempty)
      simp only [Memory.execute, Memory.pop_empty hempty, hnil, Call.queue]
      exact ⟨hheld, rfl⟩
    · have hpos : 0 < m.held := by omega
      obtain ⟨hsame, hframe⟩ := Memory.pop_held hpos
      have hshrunk := m.held_advanceTail hpos
      refine ⟨hsame.held_eq.trans_le (by omega), ?_⟩
      rw [m.contents_advanceTail hpos]
      simp only [Call.queue, Memory.execute, hframe, hsame.contents_eq]
      rfl
  | snapshot operation =>
    have hsame : m.SameQueue (m.snapshot operation).1 := sameQueue_collect _ _ _ _
    refine ⟨hsame.held_eq.trans_le hheld, ?_⟩
    simp only [Call.queue, queueAnswer, Memory.execute, hsame.contents_eq, m.snapshot_depth,
      Memory.depth_eq (hheld.trans_lt hdepth), Memory.length_contents]
  | clear =>
    have hheld' : m.clear.held = 0 := by simp [Memory.clear, Memory.held]
    have hnil : m.clear.contents = [] := List.eq_nil_of_length_eq_zero (by simpa using hheld')
    simp only [Memory.execute, Call.queue, queueAnswer, hnil]
    exact ⟨by omega, trivial⟩

/-- The ring answers a sequence of calls as a queue for at most `Capacity` frames does. -/
def BoundedFifo (C : Capacity w) (calls : List Call) : Prop :=
  (sequential C).trace {} calls =
    (queueServer RawCanFrame C.size).trace [] (calls.map Call.queue)

theorem boundedFifo_of_dvd (hdvd : C.size ∣ 2 ^ w) (hdepth : C.size < 2 ^ 32)
    (calls : List Call) : BoundedFifo C calls := by
  refine (sequential C).trace_eq_map (R := fun m q => m.held ≤ C.size ∧ q = m.contents)
    (fun m q call hR => ?_) ⟨by simp [Memory.held], by simp [Memory.contents]⟩ calls
  obtain ⟨hheld, rfl⟩ := hR
  obtain ⟨hbound, hanswer⟩ := execute_answer hdvd hdepth hheld call
  exact ⟨_, _, _, rfl, by simp only [queueServer, hanswer], hbound, rfl⟩

/-! ## Capacities that break the queue -/

theorem execute_step (m : Memory C) (call : Call) :
    (sequential C).step m call = some ((m.execute call).1, [(m.execute call).2]) := rfl

theorem run_pushes (frame : RawCanFrame) {n : ℕ} {m : Memory C} (h : m.held + n ≤ C.size) :
    ∃ m' es, (sequential C).run m (List.replicate n (.push frame)) = some (m', es) ∧
      m'.tail = m.tail ∧ m'.held = m.held + n := by
  induction n generalizing m with
  | zero => exact ⟨m, [], rfl, rfl, rfl⟩
  | succ n ih =>
    have hfree : m.held < C.size := by omega
    obtain ⟨hsame, -⟩ := m.push_free hfree frame
    have hstored : (m.storeSlot m.head frame).held < C.size := hfree
    have hheld : (m.push frame).1.held = m.held + 1 :=
      hsame.held_eq.trans (Memory.held_advanceHead _ hstored)
    obtain ⟨m', es, hrun, htail, hgrown⟩ := @ih (m.push frame).1 (by omega)
    have hall := (sequential C).run_cons.mpr ⟨_, _, es, execute_step m (.push frame), hrun, rfl⟩
    refine ⟨m', _, hall, ?_, ?_⟩
    · rw [htail, hsame.2.2]
      rfl
    · omega

/-- Every frame that goes in comes out again before the next one. -/
def cycles : ℕ → List Call
  | 0 => []
  | n + 1 => .push {} :: .pop :: cycles n

theorem run_cycles (n : ℕ) {m : Memory C} (h : m.held = 0) :
    ∃ m' es, (sequential C).run m (cycles n) = some (m', es) ∧
      m'.tail = m.tail + BitVec.ofNat w n ∧ m'.held = 0 := by
  induction n generalizing m with
  | zero => exact ⟨m, [], rfl, by simp, h⟩
  | succ n ih =>
    have hfree : m.held < C.size := h ▸ C.pos
    obtain ⟨hpush, -⟩ := m.push_free hfree {}
    have hstored : (m.storeSlot m.head {}).held < C.size := hfree
    have hheld : (m.push {}).1.held = m.held + 1 :=
      hpush.held_eq.trans (Memory.held_advanceHead _ hstored)
    have hpos : 0 < (m.push {}).1.held := by omega
    obtain ⟨hpop, -⟩ := Memory.pop_held hpos
    have hshrunk := (m.push {}).1.held_advanceTail hpos
    have hempty : (m.push {}).1.pop.1.held = 0 := by
      rw [hpop.held_eq]
      omega
    obtain ⟨m', es, hrun, htail, hheld'⟩ := ih hempty
    refine ⟨m', _, (sequential C).run_cons.mpr ⟨_, _, _, execute_step m _,
      (sequential C).run_cons.mpr ⟨_, _, es, execute_step _ _, hrun, rfl⟩, rfl⟩, ?_, hheld'⟩
    have hmoved : (m.push {}).1.pop.1.tail = m.tail + 1#w := by
      rw [hpop.2.2]
      change (m.push {}).1.tail + 1#w = _
      rw [hpush.2.2]
      rfl
    rw [htail, hmoved, offset_tail]

theorem queueServer_run_cycles {capacity : ℕ} (hpos : 0 < capacity) (n : ℕ) :
    ∃ es, (queueServer RawCanFrame capacity).run [] ((cycles n).map Call.queue) =
      some ([], es) := by
  induction n with
  | zero => exact ⟨[], rfl⟩
  | succ n ih =>
    obtain ⟨es, hrun⟩ := ih
    refine ⟨_, Machine.run_cons _ |>.mpr ⟨[{}], [.enqueued true], _, ?_,
      Machine.run_cons _ |>.mpr ⟨[], [.dequeued (some {})], es, rfl, hrun, rfl⟩, rfl⟩⟩
    simp [queueServer, Call.queue, queueAnswer, hpos]

/-- The last lap before the wrap ends inside the ring: the frame pushed first
there lies in the slot that the first index after the wrap takes again. -/
def overwriteCalls (C : Capacity w) : List Call :=
  cycles (2 ^ w / C.size * C.size) ++ .push { identifier := 1 } ::
    List.replicate (2 ^ w % C.size) (.push { identifier := 2 })

def fillCalls (C : Capacity w) : List Call :=
  List.replicate C.size (.push {}) ++ [.snapshot .snapshot]

/-- With the head back on the slot of the tail, an accepted frame replaces the oldest one. -/
theorem Memory.push_overwrites {m : Memory C} (hfree : m.held < C.size)
    (hslot : slot C.size m.head = slot C.size m.tail) (frame : RawCanFrame) :
    (m.push frame).1.pop.2 = some frame := by
  obtain ⟨hsame, -⟩ := m.push_free hfree frame
  have hstored : (m.storeSlot m.head frame).held < C.size := hfree
  have hheld : (m.push frame).1.held = m.held + 1 :=
    hsame.held_eq.trans (Memory.held_advanceHead _ hstored)
  obtain ⟨-, hpopped⟩ := (m.push frame).1.pop_held (by omega)
  rw [hpopped, hsame.1, hsame.2.2]
  change some ((Function.update m.frames (slot C.size m.head) frame) (slot C.size m.tail)) = _
  rw [hslot, Function.update_self]

/-- Positions from the start of the last, incomplete lap to the wrap. -/
theorem slot_after_wrap (hdvd : ¬ C.size ∣ 2 ^ w) :
    slot C.size (BitVec.ofNat w (2 ^ w / C.size * C.size) + BitVec.ofNat w (2 ^ w % C.size)) =
      slot C.size (BitVec.ofNat w (2 ^ w / C.size * C.size)) := by
  have hrest : 0 < 2 ^ w % C.size :=
    Nat.pos_of_ne_zero fun hzero => hdvd (Nat.dvd_of_mod_eq_zero hzero)
  have hdiv := Nat.div_add_mod' (2 ^ w) C.size
  have hlap : 2 ^ w / C.size * C.size < 2 ^ w := by omega
  apply Fin.ext
  rw [slot_val, slot_val, ← BitVec.ofNat_add, hdiv, BitVec.toNat_ofNat, BitVec.toNat_ofNat,
    Nat.mod_self, Nat.zero_mod, Nat.mod_eq_of_lt hlap, Nat.mul_mod_left]

theorem overwriteCalls_run (hdvd : ¬ C.size ∣ 2 ^ w) :
    ∃ m es, (sequential C).run {} (overwriteCalls C) = some (m, es) ∧
      m.pop.2 = some { identifier := 2 } := by
  have hlt : 2 ^ w % C.size < C.size := Nat.mod_lt _ C.pos
  obtain ⟨n, hn⟩ : ∃ n, 2 ^ w % C.size = n + 1 :=
    Nat.exists_eq_succ_of_ne_zero fun hzero => hdvd (Nat.dvd_of_mod_eq_zero hzero)
  obtain ⟨m₁, es₁, hrun₁, htail₁, hheld₁⟩ :=
    @run_cycles w C (2 ^ w / C.size * C.size) {} (by simp [Memory.held])
  obtain ⟨m₂, es₂, hrun₂, htail₂, hheld₂⟩ := @run_pushes w C { identifier := 1 } 1 m₁ (by omega)
  obtain ⟨m₃, es₃, hrun₃, htail₃, hheld₃⟩ := @run_pushes w C { identifier := 2 } n m₂ (by omega)
  have htail : m₃.tail = BitVec.ofNat w (2 ^ w / C.size * C.size) := by
    rw [htail₃, htail₂, htail₁]
    exact BitVec.zero_add _
  have hheld : m₃.held = 2 ^ w % C.size := by omega
  have hslot : slot C.size m₃.head = slot C.size m₃.tail := by
    rw [m₃.head_eq, htail, hheld]
    exact slot_after_wrap hdvd
  have hlast : (sequential C).run m₃ [.push { identifier := 2 }] =
      some ((m₃.push { identifier := 2 }).1, [.enqueued (m₃.push { identifier := 2 }).2]) := rfl
  have hpushes := (sequential C).run_append.mpr ⟨m₃, es₃, _, hrun₃, hlast, rfl⟩
  have hlap := (sequential C).run_append.mpr ⟨m₂, es₂, _, hrun₂, hpushes, rfl⟩
  have hall := (sequential C).run_append.mpr ⟨m₁, es₁, _, hrun₁, hlap, rfl⟩
  rw [overwriteCalls, hn, List.replicate_succ']
  exact ⟨_, _, hall, m₃.push_overwrites (by omega) hslot { identifier := 2 }⟩

theorem queueServer_run_overwriteCalls :
    ∃ q es, (queueServer RawCanFrame C.size).run [] ((overwriteCalls C).map Call.queue) =
      some ({ identifier := 1 } :: q, es) := by
  have hlt : 2 ^ w % C.size < C.size := Nat.mod_lt _ C.pos
  obtain ⟨es₁, hrun₁⟩ := queueServer_run_cycles C.pos (2 ^ w / C.size * C.size)
  obtain ⟨es₂, hrun₂⟩ := @queueServer_run_enqueue RawCanFrame C.size { identifier := 1 } 1 [] C.pos
  obtain ⟨es₃, hrun₃⟩ := @queueServer_run_enqueue RawCanFrame C.size { identifier := 2 }
    (2 ^ w % C.size) [{ identifier := 1 }] (by simp; omega)
  have hlap := (queueServer RawCanFrame C.size).run_append.mpr ⟨_, es₂, es₃, hrun₂, hrun₃, rfl⟩
  have hall := (queueServer RawCanFrame C.size).run_append.mpr ⟨[], es₁, _, hrun₁, hlap, rfl⟩
  rw [overwriteCalls, List.map_append, List.map_cons, List.map_replicate]
  exact ⟨_, _, hall⟩

/-- A ring whose capacity does not divide the range of the indices gives out a
frame that overtook the one pushed before it. -/
theorem not_boundedFifo_overwrite (hdvd : ¬ C.size ∣ 2 ^ w) :
    ¬ BoundedFifo C (overwriteCalls C ++ [.pop]) := by
  obtain ⟨m, es, hrun, hpopped⟩ := overwriteCalls_run hdvd
  obtain ⟨q, fs, hqueue⟩ := @queueServer_run_overwriteCalls w C
  have hpop : (sequential C).run m [.pop] =
      some (m.pop.1, [.dequeued (some { identifier := 2 })]) := by
    rw [← hpopped]
    exact execute_step m .pop
  have hring := (sequential C).run_append.mpr ⟨m, es, _, hrun, hpop, rfl⟩
  have hanswer : (queueServer RawCanFrame C.size).run ({ identifier := 1 } :: q) [.dequeue] =
      some (q, [.dequeued (some { identifier := 1 })]) := rfl
  have hserver := (queueServer RawCanFrame C.size).run_append.mpr ⟨_, fs, _, hqueue, hanswer, rfl⟩
  unfold BoundedFifo
  rw [List.map_append, Machine.trace_of_run _ hring]
  intro heq
  have htrace := heq.trans (Machine.trace_of_run _ hserver)
  have hlast := List.append_inj_right' (Option.some.inj htrace) rfl
  simp at hlast

/-- More frames than the reported depth can count. -/
theorem not_boundedFifo_fill (hdeep : 2 ^ 32 ≤ C.size) : ¬ BoundedFifo C (fillCalls C) := by
  obtain ⟨m, es, hrun, -, hheld⟩ := @run_pushes w C {} C.size {} (by simp [Memory.held])
  obtain ⟨fs, hqueue⟩ := @queueServer_run_enqueue RawCanFrame C.size {} C.size [] (by simp)
  have hfull : m.held = C.size := by simpa [Memory.held] using hheld
  have hdepth : m.depth.toNat < 2 ^ 32 := m.depth.isLt
  have hlook : (sequential C).run m [.snapshot .snapshot] =
      some ((m.snapshot .snapshot).1, [.counted m.depth.toNat]) := by
    rw [← m.snapshot_depth .snapshot]
    exact execute_step m (.snapshot .snapshot)
  have hring := (sequential C).run_append.mpr ⟨m, es, _, hrun, hlook, rfl⟩
  have hcount : (queueServer RawCanFrame C.size).run
      ([] ++ List.replicate C.size ({} : RawCanFrame)) [.count] =
      some ([] ++ List.replicate C.size ({} : RawCanFrame), [.counted C.size]) := by
    simp [queueServer, queueAnswer]
  have hserver := (queueServer RawCanFrame C.size).run_append.mpr ⟨_, fs, _, hqueue, hcount, rfl⟩
  unfold BoundedFifo
  rw [fillCalls, List.map_append, List.map_replicate, Machine.trace_of_run _ hring]
  intro heq
  have htrace := heq.trans (Machine.trace_of_run _ hserver)
  have hlast := List.append_inj_right' (Option.some.inj htrace) rfl
  simp only [List.cons.injEq, QueueAnswer.counted.injEq, and_true] at hlast
  omega

/-- The ring is a bounded queue for all sequences of calls exactly when its
capacity divides the range of the indices and fits the reported depth. -/
theorem boundedFifo_iff (C : Capacity w) :
    (∀ calls, BoundedFifo C calls) ↔ C.size ∣ 2 ^ w ∧ C.size < 2 ^ 32 := by
  constructor
  · intro hfifo
    constructor
    · by_contra hdvd
      exact not_boundedFifo_overwrite hdvd (hfifo _)
    · by_contra hdeep
      exact not_boundedFifo_fill (not_lt.mp hdeep) (hfifo _)
  · rintro ⟨hdvd, hdepth⟩ calls
    exact boundedFifo_of_dvd hdvd hdepth calls

def threeSlots : Capacity 32 := ⟨3, by decide, by decide⟩

theorem threeSlots_overtakes :
    ¬ BoundedFifo threeSlots (overwriteCalls threeSlots ++ [.pop]) :=
  not_boundedFifo_overwrite (by decide)

end FrameRing
end CanBus
end VehicleCanCore

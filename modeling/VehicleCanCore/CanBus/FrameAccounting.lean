import VehicleCanCore.CanBus.RingDepth

/-!
# Frame accounting across statistics resets

Every counter is updated on its own and a reset takes the counters one by one,
so single snapshots need not add up. What has been taken by all resets together
with what is still in the counter does, at every atomic step, and the counters
differ from each other only by the calls that are halfway through.
-/

namespace VehicleCanCore
namespace CanBus
namespace FrameRing

open VehicleCanCore.Core Automata

variable {w : ℕ} {C : Capacity w}

/-! ## Cumulative quantities of a trace -/

def Event.increment (k : Counter) : Event → ℕ
  | counted k' n => if k' = k then n.toNat else 0
  | _ => 0

def Event.taken (k : Counter) : Event → ℕ
  | reset k' value => if k' = k then value.toNat else 0
  | _ => 0

def Event.reported (k : Counter) : Event → ℕ
  | snapshotReturned .snapshotAndReset result => (result.counts k).toNat
  | _ => 0

def increments (k : Counter) (tr : List Event) : ℕ := (tr.map (Event.increment k)).sum

def resets (k : Counter) (tr : List Event) : ℕ := (tr.map (Event.taken k)).sum

/-- What the resets that have returned report of a counter. -/
def reported (k : Counter) (tr : List Event) : ℕ := (tr.map (Event.reported k)).sum

@[simp] theorem increments_nil (k : Counter) : increments k [] = 0 := rfl

@[simp] theorem resets_nil (k : Counter) : resets k [] = 0 := rfl

@[simp] theorem reported_nil (k : Counter) : reported k [] = 0 := rfl

@[simp] theorem increments_append (k : Counter) (tr es : List Event) :
    increments k (tr ++ es) = increments k tr + increments k es := by simp [increments]

@[simp] theorem resets_append (k : Counter) (tr es : List Event) :
    resets k (tr ++ es) = resets k tr + resets k es := by simp [resets]

@[simp] theorem reported_append (k : Counter) (tr es : List Event) :
    reported k (tr ++ es) = reported k tr + reported k es := by simp [reported]

@[simp] theorem increments_singleton (k : Counter) (e : Event) :
    increments k [e] = e.increment k := by simp [increments]

@[simp] theorem resets_singleton (k : Counter) (e : Event) : resets k [e] = e.taken k := by
  simp [resets]

@[simp] theorem reported_singleton (k : Counter) (e : Event) : reported k [e] = e.reported k := by
  simp [reported]

/-! ## One counter -/

/-- What one atomic operation does to the counters: it adds to one of them, it
takes one of them, or it leaves all of them alone. -/
inductive Booked (m m' : Memory C) (es : List Event) : Prop
  | added (k : Counter) (n : BitVec 64) (memory : m' = m.fetchAdd k n)
    (events : es = [.counted k n])
  | taken (k : Counter) (memory : m' = m.exchange k 0)
    (events : es = [.reset k (m.counters k)])
  | kept (memory : m'.counters = m.counters)
    (events : ∀ k, increments k es = 0 ∧ resets k es = 0)

theorem pushStep_booked {m m' : Memory C} {spurious : Bool} {pc pc' : PushPc w}
    {es : List Event} (h : pushStep m spurious pc = some (m', pc', es)) : Booked m m' es := by
  cases pc with
  | countReceived | countDropped | countOverflow | countQueued =>
    cases h
    exact .added _ _ rfl rfl
  | loadTail | raiseWatermark =>
    simp only [pushStep] at h
    split_ifs at h <;> cases h <;>
      exact .kept rfl (by simp [Event.increment, Event.taken])
  | loadHead | writeSlot | storeHead | loadWatermark =>
    cases h
    exact .kept rfl (by simp [Event.increment, Event.taken])
  | done => cases h

theorem popStep_booked {m m' : Memory C} {pc pc' : PopPc w} {es : List Event}
    (h : popStep m pc = some (m', pc', es)) : Booked m m' es := by
  cases pc with
  | countDelivered =>
    cases h
    exact .added _ _ rfl rfl
  | loadHead =>
    simp only [popStep] at h
    split_ifs at h <;> cases h <;> exact .kept rfl (by simp)
  | loadTail | readSlot | storeTail =>
    cases h
    exact .kept rfl (by simp [Event.increment, Event.taken])
  | done => cases h

theorem snapshotStep_booked {m m' : Memory C} {spurious : Bool} {pc pc' : SnapshotPc w}
    {es : List Event} (h : snapshotStep m spurious pc = some (m', pc', es)) : Booked m m' es := by
  cases pc with
  | depth | reconcileDepth =>
    simp only [snapshotStep] at h
    split at h <;> cases h <;> exact .kept rfl (by simp)
  | counters operation result remaining =>
    cases operation <;> cases remaining <;> cases h
    · exact .kept rfl (by simp)
    · exact .kept rfl (by simp)
    · exact .kept rfl (by simp)
    · exact .taken _ rfl rfl
  | loadWatermark =>
    cases h
    exact .kept rfl (by simp)
  | raiseWatermark =>
    simp only [snapshotStep] at h
    split_ifs at h <;> cases h <;> exact .kept rfl (by simp)
  | done => cases h

theorem step_booked {s t : State C} {a : Action} {es : List Event}
    (h : step s a = some (t, es)) : Booked s.memory t.memory es := by
  cases step_cases h with
  | push active hpush => exact pushStep_booked hpush
  | pop active hpop => exact popStep_booked hpop
  | snapshot active hsnap => exact snapshotStep_booked hsnap
  | record => exact .added _ _ rfl rfl
  | beginPush | returnPush | beginPop | returnPop | beginSnapshot | returnSnapshot =>
    exact .kept rfl (by simp [Event.increment, Event.taken])

/-- Nothing is lost and nothing counted twice, as long as the counter does not overflow. -/
theorem Booked.conserves {m m' : Memory C} {es : List Event} (h : Booked m m' es) (k : Counter)
    (hfits : (m.counters k).toNat + increments k es < 2 ^ 64) :
    resets k es + (m'.counters k).toNat = (m.counters k).toNat + increments k es := by
  cases h with
  | added k' n memory events =>
    subst memory events
    by_cases hk : k' = k
    · subst hk
      have hsum : (m.counters k').toNat + n.toNat < 2 ^ 64 := by
        simpa [Event.increment] using hfits
      simpa [Event.increment, Event.taken, Memory.fetchAdd] using hsum
    · simp [Event.increment, Event.taken, Memory.fetchAdd, Function.update_of_ne (Ne.symm hk), hk]
  | taken k' memory events =>
    subst memory events
    by_cases hk : k' = k
    · subst hk
      simp [Event.increment, Event.taken, Memory.exchange]
    · simp [Event.increment, Event.taken, Memory.exchange, Function.update_of_ne (Ne.symm hk), hk]
  | kept memory events => rw [memory, (events k).1, (events k).2, Nat.zero_add, Nat.add_zero]

theorem run_conserves {m : Memory C} {as : List Action} {s : State C} {tr : List Event}
    (hrun : (machine C).run (cleared m) as = some (s, tr)) (k : Counter)
    (hfits : increments k tr < 2 ^ 64) :
    resets k tr + (s.memory.counters k).toNat = increments k tr := by
  revert hfits
  refine (machine C).run_induction
    (P := fun tr s => increments k tr < 2 ^ 64 →
      resets k tr + (s.memory.counters k).toNat = increments k tr)
    (by simp [cleared, Memory.clear]) ?_ hrun
  intro _ tr s a t es _ ih hstep hfits
  rw [increments_append] at hfits ⊢
  have hbefore := ih (by omega)
  have hafter := (step_booked hstep).conserves k (by omega)
  rw [resets_append]
  omega

/-! ## The calls halfway through -/

/-- A frame that `push` has counted as received and not yet as queued or dropped. -/
def PushPc.undecided : PushPc w → ℕ
  | .countReceived _ | .countOverflow | .done _ => 0
  | _ => 1

/-- A frame counted as dropped and not yet as an overflow. -/
def PushPc.overflowing : PushPc w → ℕ
  | .countOverflow => 1
  | _ => 0

/-- A frame that is published and not yet counted as queued. -/
def PushPc.unqueued : PushPc w → ℕ
  | .loadWatermark _ | .raiseWatermark _ _ | .countQueued => 1
  | _ => 0

/-- A frame that is released and not yet counted as delivered. -/
def PopPc.uncounted : PopPc w → ℕ
  | .countDelivered _ => 1
  | _ => 0

namespace State

def undecided (s : State C) : ℕ := s.producer.elim 0 PushPc.undecided

def overflowing (s : State C) : ℕ := s.producer.elim 0 PushPc.overflowing

def unqueued (s : State C) : ℕ := s.producer.elim 0 PushPc.unqueued

def uncounted (s : State C) : ℕ := s.consumer.elim 0 PopPc.uncounted

theorem elim_le_one {α : Type*} {f : α → ℕ} (h : ∀ a, f a ≤ 1) (o : Option α) :
    o.elim 0 f ≤ 1 := by
  cases o with
  | none => exact Nat.zero_le 1
  | some a => exact h a

theorem undecided_le_one (s : State C) : s.undecided ≤ 1 := by
  apply elim_le_one
  intro pc
  cases pc <;> simp [PushPc.undecided]

theorem overflowing_le_one (s : State C) : s.overflowing ≤ 1 := by
  apply elim_le_one
  intro pc
  cases pc <;> simp [PushPc.overflowing]

theorem unqueued_le_one (s : State C) : s.unqueued ≤ 1 := by
  apply elim_le_one
  intro pc
  cases pc <;> simp [PushPc.unqueued]

theorem uncounted_le_one (s : State C) : s.uncounted ≤ 1 := by
  apply elim_le_one
  intro pc
  cases pc <;> simp [PopPc.uncounted]

end State

/-- The counters of a trace against the calls in progress. -/
structure Balanced (tr : List Event) (s : State C) : Prop where
  received : increments .framesReceived tr =
    increments .framesQueued tr + increments .framesDropped tr + s.undecided
  dropped : increments .framesDropped tr = increments .queueOverflows tr + s.overflowing
  queued : (published tr).length = increments .framesQueued tr + s.unqueued
  delivered : (delivered tr).length = increments .framesDelivered tr + s.uncounted
  held : (published tr).length = (FrameRing.delivered tr).length + s.memory.held

theorem pushStep_balance {m m' : Memory C} {spurious : Bool} {pc pc' : PushPc w}
    {es : List Event} (h : pushStep m spurious pc = some (m', pc', es)) :
    increments .framesReceived es + pc.undecided =
        increments .framesQueued es + increments .framesDropped es + pc'.undecided ∧
      increments .framesDropped es + pc.overflowing =
        increments .queueOverflows es + pc'.overflowing ∧
      (published es).length + pc.unqueued = increments .framesQueued es + pc'.unqueued ∧
      increments .framesDelivered es = 0 ∧ delivered es = [] := by
  cases pc with
  | loadTail | raiseWatermark =>
    simp only [pushStep, PushPc.afterWatermark] at h
    split_ifs at h <;> cases h <;>
      simp [Event.increment, PushPc.undecided, PushPc.overflowing, PushPc.unqueued, published,
        delivered]
  | loadWatermark =>
    simp only [pushStep, PushPc.afterWatermark] at h
    split_ifs at h <;> cases h <;>
      simp [PushPc.undecided, PushPc.overflowing, PushPc.unqueued, published, delivered]
  | done => cases h
  | _ =>
    cases h
    simp [Event.increment, PushPc.undecided, PushPc.overflowing, PushPc.unqueued, published,
      delivered]

theorem popStep_balance {m m' : Memory C} {pc pc' : PopPc w} {es : List Event}
    (h : popStep m pc = some (m', pc', es)) :
    (delivered es).length + pc.uncounted = increments .framesDelivered es + pc'.uncounted ∧
      published es = [] ∧ ∀ k, k ≠ .framesDelivered → increments k es = 0 := by
  cases pc with
  | loadHead =>
    simp only [popStep] at h
    split_ifs at h <;> cases h <;> simp [PopPc.uncounted, published, delivered]
  | done => cases h
  | _ =>
    cases h
    simp +contextual [Event.increment, PopPc.uncounted, published, delivered, eq_comm]

theorem snapshotStep_balance {m m' : Memory C} {spurious : Bool} {pc pc' : SnapshotPc w}
    {es : List Event} (h : snapshotStep m spurious pc = some (m', pc', es)) :
    (∀ k, increments k es = 0) ∧ published es = [] ∧ delivered es = [] := by
  cases pc with
  | depth | reconcileDepth =>
    simp only [snapshotStep] at h
    split at h <;> cases h <;> simp [published, delivered]
  | counters operation result remaining =>
    cases operation <;> cases remaining <;> cases h <;>
      simp [Event.increment, published, delivered]
  | loadWatermark =>
    cases h
    simp [published, delivered]
  | raiseWatermark =>
    simp only [snapshotStep] at h
    split_ifs at h <;> cases h <;> simp [published, delivered]
  | done => cases h

structure Balances (s t : State C) (es : List Event) : Prop where
  received : increments .framesReceived es + s.undecided =
    increments .framesQueued es + increments .framesDropped es + t.undecided
  dropped : increments .framesDropped es + s.overflowing =
    increments .queueOverflows es + t.overflowing
  queued : (published es).length + s.unqueued = increments .framesQueued es + t.unqueued
  delivered : (delivered es).length + s.uncounted = increments .framesDelivered es + t.uncounted
  held : (published es).length + s.memory.held = (FrameRing.delivered es).length + t.memory.held

theorem Balanced.append {tr es : List Event} {s t : State C} (h : Balanced tr s)
    (hes : Balances s t es) : Balanced (tr ++ es) t := by
  obtain ⟨hreceived, hdropped, hqueued, hdelivered, hheld⟩ := h
  obtain ⟨hreceived', hdropped', hqueued', hdelivered', hheld'⟩ := hes
  constructor
  all_goals
    simp only [increments_append, published_append, delivered_append, List.length_append]
    omega

/-- A step of neither `push` nor `pop` balances when it counts and moves no frame. -/
theorem Balances.of_quiet {s t : State C} {es : List Event}
    (hframes : ∀ k, k ∈ [Counter.framesReceived, .framesQueued, .framesDropped, .queueOverflows,
      .framesDelivered] → increments k es = 0)
    (hpublished : published es = []) (hdelivered : FrameRing.delivered es = [])
    (hsame : s.memory.SameIndices t.memory) (hundecided : t.undecided = s.undecided)
    (hoverflowing : t.overflowing = s.overflowing) (hunqueued : t.unqueued = s.unqueued)
    (huncounted : t.uncounted = s.uncounted) : Balances s t es := by
  simp only [List.mem_cons, List.not_mem_nil, or_false, forall_eq_or_imp, forall_eq] at hframes
  obtain ⟨hreceived, hqueued, hdropped, hoverflows, hcount⟩ := hframes
  constructor
  all_goals simp only [*, hsame.held_eq, List.length_nil]

theorem balances_push {s : State C} {spurious : Bool} {pc pc' : PushPc w} {m : Memory C}
    {es : List Event} (h : Indexed s) (active : s.producer = some pc)
    (hpush : pushStep s.memory spurious pc = some (m, pc', es)) :
    Balances s { s with memory := m, producer := some pc' } es := by
  obtain ⟨hreceived, hdropped, hqueued, hcount, hdelivered⟩ := pushStep_balance hpush
  refine ⟨?_, ?_, ?_, by simp [hcount, hdelivered, State.uncounted], ?_⟩
  · simpa [State.undecided, active] using hreceived
  · simpa [State.overflowing, active] using hdropped
  · simpa [State.unqueued, active] using hqueued
  · rw [hdelivered]
    rcases pushStep_indices (h.producer _ active) hpush with
      ⟨hsame, -, hpublished⟩ | ⟨frame, tail, -, hheld, hfree, rfl, -, rfl⟩
    · simp [hpublished, hsame.held_eq]
    · have hgrown := s.memory.held_advanceHead (hheld.trans_lt hfree)
      simp only [published, List.filterMap_cons, List.filterMap_nil, List.length_cons,
        List.length_nil, hgrown]
      omega

theorem balances_pop {s : State C} {pc pc' : PopPc w} {m : Memory C} {es : List Event}
    (h : Indexed s) (active : s.consumer = some pc)
    (hpop : popStep s.memory pc = some (m, pc', es)) :
    Balances s { s with memory := m, consumer := some pc' } es := by
  obtain ⟨hcount, hpublished, hothers⟩ := popStep_balance hpop
  refine ⟨?_, ?_, ?_, ?_, ?_⟩
  · simp [hothers, State.undecided]
  · simp [hothers, State.overflowing]
  · simp [hothers, hpublished, State.unqueued]
  · simpa [State.uncounted, active] using hcount
  · rw [hpublished]
    rcases popStep_indices (h.consumer _ active) hpop with
      ⟨hsame, -, hdelivered⟩ | ⟨frame, -, hpos, rfl, -, rfl⟩
    · simp [hdelivered, hsame.held_eq]
    · have hshrunk := s.memory.held_advanceTail hpos
      simp only [FrameRing.delivered, List.filterMap_cons, List.filterMap_nil, List.length_cons,
        List.length_nil]
      omega

theorem balances_step {s t : State C} {a : Action} {es : List Event} (h : Indexed s)
    (hstep : step s a = some (t, es)) : Balances s t es := by
  cases step_cases hstep with
  | push active hpush => exact balances_push h active hpush
  | pop active hpop => exact balances_pop h active hpop
  | beginPush idle =>
    refine .of_quiet (by simp) rfl rfl ⟨rfl, rfl⟩ ?_ ?_ ?_ rfl <;>
      simp [State.undecided, State.overflowing, State.unqueued, idle, PushPc.undecided,
        PushPc.overflowing, PushPc.unqueued]
  | returnPush active =>
    refine .of_quiet (by simp [Event.increment]) rfl rfl ⟨rfl, rfl⟩ ?_ ?_ ?_ rfl <;>
      simp [State.undecided, State.overflowing, State.unqueued, active, PushPc.undecided,
        PushPc.overflowing, PushPc.unqueued]
  | beginPop idle =>
    refine .of_quiet (by simp) rfl rfl ⟨rfl, rfl⟩ rfl rfl rfl ?_
    simp [State.uncounted, idle, PopPc.uncounted]
  | returnPop active =>
    refine .of_quiet (by simp [Event.increment]) rfl rfl ⟨rfl, rfl⟩ rfl rfl rfl ?_
    simp [State.uncounted, active, PopPc.uncounted]
  | @record what count =>
    refine .of_quiet ?_ rfl rfl ⟨rfl, rfl⟩ rfl rfl rfl rfl
    cases what <;> simp [Event.increment, Recorded.counter]
  | beginSnapshot => exact .of_quiet (by simp) rfl rfl ⟨rfl, rfl⟩ rfl rfl rfl rfl
  | snapshot active hsnap =>
    obtain ⟨hcounts, hpublished, hdelivered⟩ := snapshotStep_balance hsnap
    exact .of_quiet (fun k _ => hcounts k) hpublished hdelivered
      (snapshotStep_sameQueue hsnap).1.sameIndices rfl rfl rfl rfl
  | returnSnapshot =>
    exact .of_quiet (by simp [Event.increment]) rfl rfl ⟨rfl, rfl⟩ rfl rfl rfl rfl

theorem run_balanced {m : Memory C} {as : List Action} {s : State C} {tr : List Event}
    (hrun : (machine C).run (cleared m) as = some (s, tr)) : Balanced tr s := by
  refine (machine C).run_induction (P := fun tr s => Balanced tr s) ?_ ?_ hrun
  · constructor <;> simp [cleared, Memory.clear, Memory.held, published, delivered,
      State.undecided, State.overflowing, State.unqueued, State.uncounted]
  · intro _ tr s a t es hbefore ih hstep
    exact ih.append (balances_step (run_indexed hbefore) hstep)

/-! ## The resets in progress -/

/-- What a reset in progress has taken out of a counter and not returned yet. -/
def SnapshotPc.pending (k : Counter) : SnapshotPc w → ℕ
  | .counters .snapshotAndReset result remaining =>
    if k ∈ remaining then 0 else (result.counts k).toNat
  | .reconcileDepth result _ | .loadWatermark result _ | .raiseWatermark result _ _
  | .done .snapshotAndReset result => (result.counts k).toNat
  | _ => 0

/-- A snapshot visits no counter twice and has nothing of those to come. -/
def SnapshotPc.Orderly : SnapshotPc w → Prop
  | .counters _ _ remaining => remaining.Nodup
  | _ => True

def State.pending (s : State C) (k : Counter) (i : ℕ) : ℕ :=
  (s.observers i).elim 0 (SnapshotPc.pending k)

theorem snapshotStep_pending {m m' : Memory C} {spurious : Bool} {pc pc' : SnapshotPc w}
    {es : List Event} (hpc : pc.Orderly) (h : snapshotStep m spurious pc = some (m', pc', es))
    (k : Counter) :
    pc'.Orderly ∧ resets k es + pc.pending k = pc'.pending k ∧ reported k es = 0 := by
  cases pc with
  | depth operation pc =>
    simp only [snapshotStep] at h
    split at h <;> cases h
    · exact ⟨trivial, rfl, rfl⟩
    · refine ⟨by simp [SnapshotPc.Orderly, Counter.all], ?_, rfl⟩
      cases operation <;> cases k <;> simp [SnapshotPc.pending, Counter.all]
  | reconcileDepth result pc =>
    simp only [snapshotStep] at h
    split at h <;> cases h <;> exact ⟨trivial, by simp [SnapshotPc.pending], rfl⟩
  | counters operation result remaining =>
    cases operation with
    | snapshot =>
      cases remaining with
      | nil =>
        cases h
        exact ⟨trivial, rfl, rfl⟩
      | cons k' ks =>
        cases h
        exact ⟨(List.nodup_cons.mp hpc).2, rfl, rfl⟩
    | snapshotAndReset =>
      cases remaining with
      | nil =>
        cases h
        exact ⟨trivial, by simp [SnapshotPc.pending], rfl⟩
      | cons k' ks =>
        cases h
        obtain ⟨hfirst, hrest⟩ := List.nodup_cons.mp hpc
        refine ⟨hrest, ?_, by simp [Event.reported]⟩
        by_cases hk : k' = k
        · subst hk
          simp [SnapshotPc.pending, Event.taken, hfirst, Statistics.record]
        · simp [SnapshotPc.pending, Event.taken, hk, Ne.symm hk, Statistics.record]
  | loadWatermark result depth =>
    cases h
    unfold SnapshotPc.afterWatermark
    split_ifs <;> exact ⟨trivial, by simp [SnapshotPc.pending], rfl⟩
  | raiseWatermark result depth watermark =>
    simp only [snapshotStep, SnapshotPc.afterWatermark] at h
    split_ifs at h <;> cases h <;> exact ⟨trivial, by simp [SnapshotPc.pending], rfl⟩
  | done => cases h

theorem pushStep_resets {m m' : Memory C} {spurious : Bool} {pc pc' : PushPc w}
    {es : List Event} (h : pushStep m spurious pc = some (m', pc', es)) (k : Counter) :
    resets k es = 0 ∧ reported k es = 0 := by
  cases pc with
  | loadTail | raiseWatermark =>
    simp only [pushStep] at h
    split_ifs at h <;> cases h <;> simp [Event.taken, Event.reported]
  | done => cases h
  | _ =>
    cases h
    simp [Event.taken, Event.reported]

theorem popStep_resets {m m' : Memory C} {pc pc' : PopPc w} {es : List Event}
    (h : popStep m pc = some (m', pc', es)) (k : Counter) :
    resets k es = 0 ∧ reported k es = 0 := by
  cases pc with
  | loadHead =>
    simp only [popStep] at h
    split_ifs at h <;> cases h <;> simp
  | done => cases h
  | _ =>
    cases h
    simp [Event.taken, Event.reported]

theorem sum_pending_setObserver {s t : State C} {i : ℕ} {S : Finset ℕ} (k : Counter)
    (hi : i ∈ S) (h : ∀ j, j ≠ i → t.observers j = s.observers j) :
    ∑ j ∈ S, t.pending k j + s.pending k i = ∑ j ∈ S, s.pending k j + t.pending k i := by
  rw [← Finset.add_sum_erase S _ hi, ← Finset.add_sum_erase S (s.pending k) hi]
  have hothers : ∑ j ∈ S.erase i, t.pending k j = ∑ j ∈ S.erase i, s.pending k j := by
    apply Finset.sum_congr rfl
    intro j hj
    rw [State.pending, h j (Finset.ne_of_mem_erase hj), State.pending]
  omega

/-- What a step does to the resets in progress: it concerns at most one observer,
and what that one has taken is either pending or reported. -/
structure Settles (s t : State C) (es : List Event) (i : ℕ) : Prop where
  orderly : ∀ pc, t.observers i = some pc → pc.Orderly
  others : ∀ j, j ≠ i → t.observers j = s.observers j
  taken : ∀ k, resets k es + s.pending k i = reported k es + t.pending k i

theorem Settles.of_same {s t : State C} {es : List Event}
    (h : ∀ i pc, s.observers i = some pc → pc.Orderly) (hsame : t.observers = s.observers)
    (hes : ∀ k, resets k es = 0 ∧ reported k es = 0) : Settles s t es 0 where
  orderly pc hpc := h 0 pc (hsame ▸ hpc)
  others j _ := by rw [hsame]
  taken k := by rw [(hes k).1, (hes k).2, State.pending, State.pending, hsame]

theorem settles_setObserver {s : State C} {i : ℕ} {pc : Option (SnapshotPc w)} {m : Memory C}
    {es : List Event} (horderly : ∀ pc', pc = some pc' → pc'.Orderly)
    (htaken : ∀ k, resets k es + s.pending k i =
      reported k es + pc.elim 0 (SnapshotPc.pending k)) :
    Settles s ({ s with memory := m }.setObserver i pc) es i where
  orderly pc' hpc' := by
    simp only [State.setObserver, Function.update_self] at hpc'
    exact horderly pc' hpc'
  others j hj := by simp [State.setObserver, hj]
  taken k := by simpa [State.pending, State.setObserver] using htaken k

theorem step_settles {s t : State C} {a : Action} {es : List Event}
    (h : ∀ i pc, s.observers i = some pc → pc.Orderly) (hstep : step s a = some (t, es)) :
    ∃ i, Settles s t es i := by
  cases step_cases hstep with
  | push active hpush => exact ⟨0, .of_same h rfl (pushStep_resets hpush)⟩
  | pop active hpop => exact ⟨0, .of_same h rfl (popStep_resets hpop)⟩
  | beginPush | returnPush | beginPop | returnPop | record =>
    exact ⟨0, .of_same h rfl (by simp [Event.taken, Event.reported])⟩
  | @beginSnapshot i operation idle =>
    refine ⟨i, settles_setObserver ?_ ?_⟩
    · rintro _ ⟨⟩
      trivial
    · intro k
      simp [State.pending, idle, SnapshotPc.pending]
  | @snapshot i spurious pc pc' m es active hsnap =>
    have hpending := snapshotStep_pending (h i pc active) hsnap
    refine ⟨i, settles_setObserver ?_ ?_⟩
    · rintro _ ⟨⟩
      exact (hpending .busErrors).1
    · intro k
      obtain ⟨-, htaken, hreported⟩ := hpending k
      simpa [State.pending, active, hreported] using htaken
  | @returnSnapshot i operation result active =>
    refine ⟨i, settles_setObserver (by simp) ?_⟩
    intro k
    cases operation <;>
      simp [State.pending, active, SnapshotPc.pending, Event.taken, Event.reported]

/-- What all resets have taken is what they have reported and what is pending. -/
structure Settled (tr : List Event) (s : State C) : Prop where
  orderly : ∀ i pc, s.observers i = some pc → pc.Orderly
  finite : ∃ S : Finset ℕ, ∀ i, i ∉ S → s.observers i = none
  taken : ∀ (k : Counter) (S : Finset ℕ), (∀ i, i ∉ S → s.observers i = none) →
    resets k tr = reported k tr + ∑ i ∈ S, s.pending k i

theorem Settled.append {tr es : List Event} {s t : State C} {i : ℕ} (h : Settled tr s)
    (hes : Settles s t es i) : Settled (tr ++ es) t := by
  have hback {S : Finset ℕ} (hS : ∀ j, j ∉ S → t.observers j = none) :
      ∀ j, j ∉ insert i S → s.observers j = none := by
    intro j hj
    rw [Finset.mem_insert, not_or] at hj
    rw [← hes.others j hj.1]
    exact hS j hj.2
  refine ⟨?_, ?_, ?_⟩
  · intro j pc hpc
    by_cases hj : j = i
    · subst hj
      exact hes.orderly pc hpc
    · rw [hes.others j hj] at hpc
      exact h.orderly j pc hpc
  · obtain ⟨S, hS⟩ := h.finite
    refine ⟨insert i S, fun j hj => ?_⟩
    rw [Finset.mem_insert, not_or] at hj
    rw [hes.others j hj.1]
    exact hS j hj.2
  · intro k S hS
    have hbefore := h.taken k (insert i S) (hback hS)
    have hchange := sum_pending_setObserver k (Finset.mem_insert_self i S) hes.others
    have htaken := hes.taken k
    have hsame : ∑ j ∈ insert i S, t.pending k j = ∑ j ∈ S, t.pending k j := by
      by_cases hi : i ∈ S
      · rw [Finset.insert_eq_of_mem hi]
      · rw [Finset.sum_insert hi, State.pending, hS i hi]
        exact Nat.zero_add _
    rw [resets_append, reported_append]
    omega

theorem run_settled {m : Memory C} {as : List Action} {s : State C} {tr : List Event}
    (hrun : (machine C).run (cleared m) as = some (s, tr)) : Settled tr s := by
  refine (machine C).run_induction (P := fun tr s => Settled tr s) ?_ ?_ hrun
  · refine ⟨by simp [cleared], ⟨∅, fun _ _ => rfl⟩, ?_⟩
    simp [cleared, State.pending]
  · intro _ tr s a t es _ ih hstep
    obtain ⟨i, hi⟩ := step_settles ih.orderly hstep
    exact ih.append hi

/-- For every interleaving: what the resets have taken and what is still in a
counter are all its increments, the reports of the resets account for what they
have taken, and the cumulative counters agree with each other and with the depth
up to the calls halfway through. -/
theorem frame_accounting (m : Memory C) {as : List Action} {s : State C} {tr : List Event}
    (hrun : (machine C).run (cleared m) as = some (s, tr)) :
    (∀ k, increments k tr < 2 ^ 64 →
      resets k tr + (s.memory.counters k).toNat = increments k tr) ∧
    (∀ (k : Counter) (S : Finset ℕ), (∀ i, i ∉ S → s.observers i = none) →
      resets k tr = reported k tr + ∑ i ∈ S, s.pending k i) ∧
    (increments .framesReceived tr = increments .framesQueued tr + increments .framesDropped tr ∨
      increments .framesReceived tr =
        increments .framesQueued tr + increments .framesDropped tr + 1) ∧
    (increments .framesDropped tr = increments .queueOverflows tr ∨
      increments .framesDropped tr = increments .queueOverflows tr + 1) ∧
    increments .framesQueued tr ≤ increments .framesDelivered tr + s.memory.held + 1 ∧
    increments .framesDelivered tr + s.memory.held ≤ increments .framesQueued tr + 1 ∧
    (s.producer = none → s.consumer = none →
      increments .framesReceived tr =
          increments .framesQueued tr + increments .framesDropped tr ∧
        increments .framesDropped tr = increments .queueOverflows tr ∧
        increments .framesQueued tr = increments .framesDelivered tr + s.memory.held) := by
  obtain ⟨hreceived, hdropped, hqueued, hdelivered, hheld⟩ := run_balanced hrun
  have hundecided := s.undecided_le_one
  have hoverflowing := s.overflowing_le_one
  have hunqueued := s.unqueued_le_one
  have huncounted := s.uncounted_le_one
  refine ⟨run_conserves hrun, (run_settled hrun).taken, by omega, by omega, by omega, by omega, ?_⟩
  intro hproducer hconsumer
  have hidle : s.undecided = 0 ∧ s.overflowing = 0 ∧ s.unqueued = 0 ∧ s.uncounted = 0 := by
    simp [State.undecided, State.overflowing, State.unqueued, State.uncounted, hproducer,
      hconsumer]
  omega

/-- A reset between the two halves of a push: `framesReceived` is taken while
`framesQueued` is still owed, so the increments are one taken and one to come. -/
theorem frame_accounting_reset : ∃ s tr,
    (machine tinyCapacity).run (cleared {})
      ([.record .busError 3, .beginPush {}] ++ List.replicate 7 (.producer false) ++
        .beginSnapshot 0 .snapshotAndReset :: List.replicate 8 (.observer 0 false)) =
        some (s, tr) ∧
      increments .framesReceived tr = 1 ∧ increments .framesQueued tr = 0 ∧
      s.memory.held = 1 ∧ increments .busErrors tr = resets .busErrors tr +
        (s.memory.counters .busErrors).toNat := by
  have hobserved : ((machine tinyCapacity).run (cleared {})
      ([.record .busError 3, .beginPush {}] ++ List.replicate 7 (.producer false) ++
        .beginSnapshot 0 .snapshotAndReset :: List.replicate 8 (.observer 0 false))).map
        (fun p => (increments .framesReceived p.2, increments .framesQueued p.2,
          p.1.memory.held, increments .busErrors p.2)) = some (1, 0, 1, 3) := by decide
  obtain ⟨⟨s, tr⟩, hrun, heq⟩ := Option.map_eq_some_iff.mp hobserved
  simp only [Prod.mk.injEq] at heq
  obtain ⟨hreceived, hqueued, hheld, hbusErrors⟩ := heq
  have hconserved := (frame_accounting {} hrun).1 .busErrors (by omega)
  exact ⟨s, tr, hrun, hreceived, hqueued, hheld, hconserved.symm⟩

end FrameRing
end CanBus
end VehicleCanCore

import VehicleCanCore.Automata.Accumulator
import VehicleCanCore.CanBus.FrameAccounting
import VehicleCanCore.CanBus.TaskExclusivity

/-!
# Accumulation of the driver's counters

The driver counts bus errors, missed frames and overruns in 32-bit counters that
start at zero with each installation. The receive task adds what they advanced by
since its last successful status poll to the 64-bit counters of the ring, among
them the frames that it rejects itself, and observers take those out now and then.
A meter beside the acquisition keeps the true numbers of the current run.
-/

namespace VehicleCanCore
namespace CanBus

open Automata

/-! ## The true numbers -/

/-- How often the driver has counted since it was installed. -/
structure DriverCounts where
  busErrors : ℕ := 0
  rxMissed : ℕ := 0
  rxOverrun : ℕ := 0
  deriving DecidableEq, Repr

namespace DriverCounts

instance : Add DriverCounts where
  add n m := ⟨n.busErrors + m.busErrors, n.rxMissed + m.rxMissed, n.rxOverrun + m.rxOverrun⟩

instance : LE DriverCounts where
  le n m := n.busErrors ≤ m.busErrors ∧ n.rxMissed ≤ m.rxMissed ∧ n.rxOverrun ≤ m.rxOverrun

def lost (n : DriverCounts) : ℕ := n.rxMissed + n.rxOverrun

/-- The status counters have 32 bits. -/
def Shows (n : DriverCounts) (status : DriverStatus) : Prop :=
  status.busErrorCount = BitVec.ofNat 32 n.busErrors ∧
    status.rxMissedCount = BitVec.ofNat 32 n.rxMissed ∧
    status.rxOverrunCount = BitVec.ofNat 32 n.rxOverrun

instance (n : DriverCounts) (status : DriverStatus) : Decidable (n.Shows status) :=
  inferInstanceAs (Decidable (_ ∧ _))

/-- No counter has advanced by its whole range. -/
def Near (n m : DriverCounts) : Prop :=
  m.busErrors < n.busErrors + 2 ^ 32 ∧ m.rxMissed < n.rxMissed + 2 ^ 32 ∧
    m.rxOverrun < n.rxOverrun + 2 ^ 32

instance (n m : DriverCounts) : Decidable (n.Near m) := inferInstanceAs (Decidable (_ ∧ _))

theorem le_refl (n : DriverCounts) : n ≤ n := ⟨Nat.le_refl _, Nat.le_refl _, Nat.le_refl _⟩

theorem le_add_right {n m : DriverCounts} (h : n ≤ m) (k : DriverCounts) : n ≤ m + k :=
  ⟨Nat.le_add_right_of_le h.1, Nat.le_add_right_of_le h.2.1, Nat.le_add_right_of_le h.2.2⟩

end DriverCounts

/-- What happens to the true numbers: `counted` is the driver's own doing, `begun`
the creation of a run's receive task. A poll is `polled` when `twai_get_status_info`
has succeeded and `saved` at its end; `reset` is a counter that a
`kSnapshotAndReset` takes. -/
inductive CountEvent
  | counted (n : DriverCounts)
  | installed
  | begun
  | polled
  | saved
  | rejected
  | reset (k : Counter) (value : BitVec 64)

/-- `read` and `polled` are the counts at the last status and at the last complete
poll; `rejected` counts the invalid frames of the run, and `returned` sums up what
resets have taken since it began, to return it. -/
structure DriverMeter where
  counts : DriverCounts := {}
  read : DriverCounts := {}
  polled : DriverCounts := {}
  rejected : ℕ := 0
  returned : Counter → ℕ := fun _ => 0

namespace DriverMeter

def next (m : DriverMeter) : CountEvent → DriverMeter
  | .counted n => { m with counts := m.counts + n }
  | .installed => { m with counts := {}, read := {}, polled := {} }
  | .begun => { m with rejected := 0, returned := fun _ => 0 }
  | .polled => { m with read := m.counts }
  | .saved => { m with polled := m.read }
  | .rejected => { m with rejected := m.rejected + 1 }
  | .reset k value =>
    { m with returned := Function.update m.returned k (m.returned k + value.toNat) }

def after (m : DriverMeter) (es : List CountEvent) : DriverMeter := es.foldl next m

@[simp] theorem after_nil (m : DriverMeter) : m.after [] = m := rfl

@[simp] theorem after_singleton (m : DriverMeter) (e : CountEvent) : m.after [e] = m.next e := rfl

end DriverMeter

def ControlPc.countEvents (ok : Bool) : ControlPc → List CountEvent
  | install _ => if ok then [.installed] else []
  | createTask => if ok then [.begun] else []
  | _ => []

def TaskPc.countEvents (input : TaskInput) : TaskPc → List CountEvent
  | readStatus => if input.status.isSome then [.polled] else []
  | saveBaselines _ => [.saved]
  | recordInvalid => [.rejected]
  | _ => []

def SnapshotPc.countEvents (g : Shared) : FrameRing.SnapshotPc 32 → List CountEvent
  | .counters .snapshotAndReset _ (k :: _) => [.reset k (g.frames.counters k)]
  | _ => []

def State.countEvents (s : State) : Action → List CountEvent
  | .control ok => s.control.countEvents ok
  | .task i input => (s.tasks[i]?).elim [] (TaskPc.countEvents input)
  | .observer i _ => (s.observers i).elim [] (SnapshotPc.countEvents s.shared)
  | _ => []

/-! ## The acquisition with its meter -/

/-- The driver counts at any moment, whatever the other parties do. -/
inductive MeteredAction
  | act (a : Action)
  | count (n : DriverCounts)

structure Metered where
  state : State := boot
  meter : DriverMeter := {}

def meteredStep (u : Metered) : MeteredAction → Option (Metered × List Event)
  | .act a =>
    (step u.state a).map fun (t, es) => (⟨t, u.meter.after (u.state.countEvents a)⟩, es)
  | .count n => some (⟨u.state, u.meter.next (.counted n)⟩, [])

def metered : Machine Metered MeteredAction Event := ⟨meteredStep⟩

def TaskPc.polls : TaskPc → Bool
  | readStatus => true
  | _ => false

def State.status (s : State) : Action → Option DriverStatus
  | .task i input => if (s.tasks[i]?).any TaskPc.polls then input.status else none
  | _ => none

/-- The driver reports its counters, which have 32 bits, and none of them advances
by its whole range from one successful poll of an installation to the next. -/
def ReportsCounters (u : Metered) : MeteredAction → Prop
  | .act a => ∀ status ∈ u.state.status a,
      u.meter.counts.Shows status ∧ u.meter.polled.Near u.meter.counts
  | .count _ => True

instance (u : Metered) : DecidablePred (ReportsCounters u)
  | .act a =>
    match h : u.state.status a with
    | none => isTrue (by simp [ReportsCounters, h])
    | some status =>
      decidable_of_iff (u.meter.counts.Shows status ∧ u.meter.polled.Near u.meter.counts)
        (by simp [ReportsCounters, h])
  | .count _ => isTrue trivial

/-- No receive task is created over an outstanding acknowledgement. -/
def MeteredCreates (u : Metered) : MeteredAction → Prop
  | .act a => CreatesAcknowledged u.state a
  | .count _ => True

instance (u : Metered) : DecidablePred (MeteredCreates u)
  | .act a => inferInstanceAs (Decidable (CreatesAcknowledged u.state a))
  | .count _ => isTrue trivial

/-! ## The account of a run -/

/-- The two statistics that the driver's counters go into. -/
def Counter.ofDriver : Counter → Bool
  | busErrors | driverRxMissed => true
  | _ => false

def Shared.baselines (g : Shared) : DriverStatus :=
  ⟨g.lastDriverBusErrors, g.lastDriverRxMissed, g.lastDriverRxOverrun⟩

def Shared.Cleared (g : Shared) : Prop :=
  ∀ k : Counter, k.ofDriver = true → g.frames.counters k = 0

namespace DriverMeter

/-- The baselines are the last complete poll, and the two statistics with what has
been taken out of them account for these numbers. -/
structure Balanced (m : DriverMeter) (g : Shared) (busErrors lost : ℕ) : Prop where
  baselines : m.polled.Shows g.baselines
  busErrors : Accumulates (m.returned .busErrors) (g.frames.counters .busErrors) busErrors
  driverRxMissed : Accumulates (m.returned .driverRxMissed) (g.frames.counters .driverRxMissed)
    (lost + m.rejected)

/-- A poll that is under way, by the status that it works with. -/
structure Reads (m : DriverMeter) (status : DriverStatus) : Prop where
  shows : m.read.Shows status
  le : m.polled ≤ m.read
  near : m.polled.Near m.read

end DriverMeter

/-- A poll first accounts for the bus errors, then for the frames lost, and then
moves the baselines. -/
def TaskPc.Booked (g : Shared) (m : DriverMeter) : TaskPc → Prop
  | recordBusErrors status => m.Reads status ∧ m.Balanced g m.polled.busErrors m.polled.lost
  | recordRxMissed status => m.Reads status ∧ m.Balanced g m.read.busErrors m.polled.lost
  | saveBaselines status => m.Reads status ∧ m.Balanced g m.read.busErrors m.read.lost
  | _ => m.Balanced g m.polled.busErrors m.polled.lost

/-! ## Steps that only move the account -/

/-- A reset moves a part of a counter to what it returns; nothing else happens. -/
structure Moves (g g' : Shared) (m m' : DriverMeter) : Prop where
  baselines : g'.baselines = g.baselines
  read : m'.read = m.read
  polled : m'.polled = m.polled
  rejected : m'.rejected = m.rejected
  sum : ∀ k : Counter, k.ofDriver = true → m'.returned k + (g'.frames.counters k).toNat =
    m.returned k + (g.frames.counters k).toNat
  cleared : ∀ k : Counter, k.ofDriver = true → g.frames.counters k = 0 → g'.frames.counters k = 0

theorem moves_of_eq {g g' : Shared} {m : DriverMeter} (hbaselines : g'.baselines = g.baselines)
    (hcounters : ∀ k : Counter, k.ofDriver = true → g'.frames.counters k = g.frames.counters k) :
    Moves g g' m m where
  baselines := hbaselines
  read := rfl
  polled := rfl
  rejected := rfl
  sum k hk := by rw [hcounters k hk]
  cleared k hk hzero := by rwa [hcounters k hk]

theorem moves_of_frames {g g' : Shared} {m : DriverMeter} (hbaselines : g'.baselines = g.baselines)
    (hframes : g'.frames = g.frames) : Moves g g' m m :=
  moves_of_eq hbaselines fun k _ => by rw [hframes]

theorem Moves.balanced {g g' : Shared} {m m' : DriverMeter} (h : Moves g g' m m')
    {busErrors lost : ℕ} (hm : m.Balanced g busErrors lost) : m'.Balanced g' busErrors lost where
  baselines := by
    rw [h.baselines, h.polled]
    exact hm.baselines
  busErrors := hm.busErrors.take (h.sum .busErrors rfl)
  driverRxMissed := by
    rw [h.rejected]
    exact hm.driverRxMissed.take (h.sum .driverRxMissed rfl)

theorem Moves.booked {g g' : Shared} {m m' : DriverMeter} (h : Moves g g' m m') {pc : TaskPc}
    (hpc : pc.Booked g m) : pc.Booked g' m' := by
  have hreads {status : DriverStatus} (hm : m.Reads status) : m'.Reads status := by
    refine ⟨?_, ?_, ?_⟩
    · rw [h.read]
      exact hm.shows
    · rw [h.read, h.polled]
      exact hm.le
    · rw [h.read, h.polled]
      exact hm.near
  cases pc with
  | recordBusErrors | recordRxMissed | saveBaselines =>
    refine ⟨hreads hpc.1, ?_⟩
    first
      | rw [h.read, h.polled]
        exact h.balanced hpc.2
      | rw [h.polled]
        exact h.balanced hpc.2
      | rw [h.read]
        exact h.balanced hpc.2
  | _ =>
    change m'.Balanced g' m'.polled.busErrors m'.polled.lost
    rw [h.polled]
    exact h.balanced hpc

theorem fetchAdd_of_ne (m : FrameRing.Memory queueCapacity) {k k' : Counter} (n : BitVec 64)
    (hne : k ≠ k') : (m.fetchAdd k' n).counters k = m.counters k :=
  Function.update_of_ne hne _ _

theorem pushStep_ofDriver {m m' : FrameRing.Memory queueCapacity} {spurious : Bool}
    {pc pc' : FrameRing.PushPc 32} {es : List FrameRing.Event} {k : Counter}
    (hk : k.ofDriver = true) (h : FrameRing.pushStep m spurious pc = some (m', pc', es)) :
    m'.counters k = m.counters k := by
  cases pc with
  | countReceived | countDropped | countOverflow | countQueued =>
    cases h
    apply fetchAdd_of_ne
    rintro rfl
    cases hk
  | loadTail | raiseWatermark =>
    simp only [FrameRing.pushStep] at h
    split_ifs at h <;> cases h <;> rfl
  | done => cases h
  | _ =>
    cases h
    rfl

theorem popStep_ofDriver {m m' : FrameRing.Memory queueCapacity} {pc pc' : FrameRing.PopPc 32}
    {es : List FrameRing.Event} {k : Counter} (hk : k.ofDriver = true)
    (h : FrameRing.popStep m pc = some (m', pc', es)) : m'.counters k = m.counters k := by
  cases pc with
  | countDelivered =>
    cases h
    apply fetchAdd_of_ne
    rintro rfl
    cases hk
  | loadHead =>
    simp only [FrameRing.popStep] at h
    split_ifs at h <;> cases h <;> rfl
  | done => cases h
  | _ =>
    cases h
    rfl

theorem moves_exchange (g : Shared) (m : DriverMeter) (k : Counter) :
    Moves g { g with frames := g.frames.exchange k 0 } m
      (m.next (.reset k (g.frames.counters k))) := by
  refine ⟨rfl, rfl, rfl, rfl, fun k' _ => ?_, fun k' _ hzero => ?_⟩
  · by_cases hk : k' = k
    · subst hk
      simp [DriverMeter.next, FrameRing.Memory.exchange]
    · simp [DriverMeter.next, FrameRing.Memory.exchange, Function.update_of_ne hk]
  · by_cases hk : k' = k
    · subst hk
      simp [FrameRing.Memory.exchange]
    · simpa [FrameRing.Memory.exchange, Function.update_of_ne hk] using hzero

theorem snapshotStep_moves {g : Shared} {m : DriverMeter} {mem : FrameRing.Memory queueCapacity}
    {spurious : Bool} {pc pc' : FrameRing.SnapshotPc 32} {es : List FrameRing.Event}
    (h : FrameRing.snapshotStep g.frames spurious pc = some (mem, pc', es)) :
    Moves g { g with frames := mem } m (m.after (SnapshotPc.countEvents g pc)) := by
  cases pc with
  | depth | reconcileDepth =>
    simp only [FrameRing.snapshotStep] at h
    split at h <;> cases h <;> exact moves_of_eq rfl fun _ _ => rfl
  | counters operation result remaining =>
    cases operation <;> cases remaining <;> cases h
    · exact moves_of_eq rfl fun _ _ => rfl
    · exact moves_of_eq rfl fun _ _ => rfl
    · exact moves_of_eq rfl fun _ _ => rfl
    · exact moves_exchange g m _
  | loadWatermark =>
    cases h
    exact moves_of_eq rfl fun _ _ => rfl
  | raiseWatermark =>
    simp only [FrameRing.snapshotStep] at h
    split_ifs at h <;> cases h <;> exact moves_of_eq rfl fun _ _ => rfl
  | done => cases h

theorem takeAvailable_baselines {g g' : Shared} (h : g.takeAvailable = some g') :
    g'.baselines = g.baselines ∧ g'.frames = g.frames := by
  simp only [Shared.takeAvailable, Option.map_eq_some_iff] at h
  obtain ⟨s, -, rfl⟩ := h
  exact ⟨rfl, rfl⟩

theorem takeTaskStopped_baselines {g g' : Shared} (h : g.takeTaskStopped = some g') :
    g'.baselines = g.baselines ∧ g'.frames = g.frames := by
  simp only [Shared.takeTaskStopped, Option.map_eq_some_iff] at h
  obtain ⟨s, -, rfl⟩ := h
  exact ⟨rfl, rfl⟩

theorem receiveStep_moves {g g' : Shared} {ok : Bool} {pc pc' : ReceivePc} {es : List Event}
    (h : receiveStep g ok pc = some (g', pc', es)) (m : DriverMeter) : Moves g g' m m := by
  cases pc with
  | idle => cases h
  | expired =>
    cases h
    exact moves_of_frames rfl rfl
  | enter | woken =>
    simp only [receiveStep] at h
    split at h <;> cases h <;> exact moves_of_frames rfl rfl
  | wait =>
    simp only [receiveStep] at h
    split at h <;> split_ifs at h <;> cases h
    · obtain ⟨hbaselines, hframes⟩ := takeAvailable_baselines ‹_›
      exact moves_of_frames hbaselines hframes
    · exact moves_of_frames rfl rfl
  | pop pc =>
    cases pc with
    | done frame => cases frame <;> cases h <;> exact moves_of_frames rfl rfl
    | _ =>
      simp only [receiveStep, Option.map_eq_some_iff, Prod.exists] at h
      obtain ⟨mem, pc'', es', hpop, heq⟩ := h
      cases heq
      exact moves_of_eq rfl fun k hk => popStep_ofDriver hk hpop

/-! ## The receive task -/

theorem counterDelta_toNat {status baseline : BitVec 32} {a b : ℕ}
    (hstatus : status = BitVec.ofNat 32 b) (hbaseline : baseline = BitVec.ofNat 32 a)
    (hle : a ≤ b) (hlt : b < a + 2 ^ 32) : (counterDelta status baseline).toNat = b - a := by
  have hdelta := toNat_ofNat_sub_ofNat hle hlt
  subst hstatus hbaseline
  rw [counterDelta, BitVec.toNat_setWidth, hdelta, Nat.mod_eq_of_lt (by omega)]

theorem DriverMeter.Reads.busErrors {m : DriverMeter} {g : Shared} {status : DriverStatus}
    (h : m.Reads status) (hbaselines : m.polled.Shows g.baselines) :
    m.polled.busErrors + (counterDelta status.busErrorCount g.lastDriverBusErrors).toNat =
      m.read.busErrors := by
  have hle : m.polled.busErrors ≤ m.read.busErrors := h.le.1
  have hdelta : (counterDelta status.busErrorCount g.lastDriverBusErrors).toNat =
      m.read.busErrors - m.polled.busErrors :=
    counterDelta_toNat h.shows.1 hbaselines.1 hle h.near.1
  omega

theorem DriverMeter.Reads.lost {m : DriverMeter} {g : Shared} {status : DriverStatus}
    (h : m.Reads status) (hbaselines : m.polled.Shows g.baselines) :
    m.polled.lost + (counterDelta status.rxMissedCount g.lastDriverRxMissed +
        counterDelta status.rxOverrunCount g.lastDriverRxOverrun).toNat = m.read.lost := by
  obtain ⟨-, hmissed, hoverrun⟩ := h.le
  obtain ⟨-, hnear, hnear'⟩ := h.near
  have hdelta : (counterDelta status.rxMissedCount g.lastDriverRxMissed).toNat =
      m.read.rxMissed - m.polled.rxMissed :=
    counterDelta_toNat h.shows.2.1 hbaselines.2.1 hmissed hnear
  have hdelta' : (counterDelta status.rxOverrunCount g.lastDriverRxOverrun).toNat =
      m.read.rxOverrun - m.polled.rxOverrun :=
    counterDelta_toNat h.shows.2.2 hbaselines.2.2 hoverrun hnear'
  -- two advances of 32-bit counters fit into 64 bits
  rw [BitVec.toNat_add, Nat.mod_eq_of_lt (by omega)]
  unfold DriverCounts.lost
  omega

theorem DriverMeter.Balanced.congr {m m' : DriverMeter} {g g' : Shared} {busErrors lost : ℕ}
    (h : m.Balanced g busErrors lost) (hbaselines : g'.baselines = g.baselines)
    (hcounters : ∀ k : Counter, k.ofDriver = true → g'.frames.counters k = g.frames.counters k)
    (hpolled : m'.polled = m.polled) (hrejected : m'.rejected = m.rejected)
    (hreturned : m'.returned = m.returned) : m'.Balanced g' busErrors lost where
  baselines := by
    rw [hbaselines, hpolled]
    exact h.baselines
  busErrors := by
    rw [hcounters .busErrors rfl, hreturned]
    exact h.busErrors
  driverRxMissed := by
    rw [hcounters .driverRxMissed rfl, hreturned, hrejected]
    exact h.driverRxMissed

theorem DriverMeter.Balanced.addBusErrors {m : DriverMeter} {g : Shared}
    {busErrors busErrors' lost : ℕ} {n : BitVec 64} (h : m.Balanced g busErrors lost)
    (hn : busErrors + n.toNat = busErrors') :
    m.Balanced { g with frames := g.frames.fetchAdd .busErrors n } busErrors' lost where
  baselines := h.baselines
  busErrors := by
    subst hn
    exact h.busErrors.add n
  driverRxMissed := h.driverRxMissed

theorem DriverMeter.Balanced.addRxMissed {m : DriverMeter} {g : Shared}
    {busErrors lost lost' : ℕ} {n : BitVec 64} (h : m.Balanced g busErrors lost)
    (hn : lost + n.toNat = lost') :
    m.Balanced { g with frames := g.frames.fetchAdd .driverRxMissed n } busErrors lost' where
  baselines := h.baselines
  busErrors := h.busErrors
  driverRxMissed := by
    have hadd := h.driverRxMissed.add n
    rwa [Nat.add_right_comm, hn] at hadd

/-- A frame that the task rejects shares the statistic of the frames lost. -/
theorem DriverMeter.Balanced.rejects {m : DriverMeter} {g : Shared} {busErrors lost : ℕ}
    (h : m.Balanced g busErrors lost) :
    (m.next .rejected).Balanced { g with frames := g.frames.fetchAdd .driverRxMissed 1 }
      busErrors lost where
  baselines := h.baselines
  busErrors := h.busErrors
  driverRxMissed := h.driverRxMissed.add 1

theorem taskStep_booked {g g' : Shared} {m : DriverMeter} {input : TaskInput} {pc pc' : TaskPc}
    {es : List Event} (hpc : pc.Booked g m) (hle : m.polled ≤ m.counts)
    (hstatus : pc.polls = true → ∀ status ∈ input.status,
      m.counts.Shows status ∧ m.polled.Near m.counts)
    (h : taskStep g input pc = some (g', pc', es)) :
    pc'.Booked g' (m.after (pc.countEvents input)) := by
  cases pc with
  | loopHead =>
    cases h
    split_ifs <;> exact hpc
  | receive =>
    simp only [taskStep] at h
    split at h <;> cases h
    · split_ifs <;> exact hpc
    · exact hpc
    · exact hpc
  | push pc =>
    cases pc with
    | done accepted =>
      cases h
      split_ifs <;> exact hpc
    | _ =>
      simp only [taskStep, Option.map_eq_some_iff, Prod.exists] at h
      obtain ⟨mem, pc'', es', hpush, heq⟩ := h
      cases heq
      exact DriverMeter.Balanced.congr hpc rfl (fun k hk => pushStep_ofDriver hk hpush) rfl rfl rfl
  | recordInvalid =>
    cases h
    exact hpc.rejects
  | readStatus =>
    simp only [taskStep] at h
    split at h <;> rename_i hinput <;> cases h
    · obtain ⟨hshows, hnear⟩ := hstatus rfl _ hinput
      simp only [TaskPc.countEvents, hinput]
      exact ⟨⟨hshows, hle, hnear⟩, hpc.congr rfl (fun _ _ => rfl) rfl rfl rfl⟩
    · simp only [TaskPc.countEvents, hinput]
      exact hpc
  | recordBusErrors status =>
    obtain ⟨hreads, hbalanced⟩ := hpc
    cases h
    exact ⟨hreads, hbalanced.addBusErrors (hreads.busErrors hbalanced.baselines)⟩
  | recordRxMissed status =>
    obtain ⟨hreads, hbalanced⟩ := hpc
    cases h
    exact ⟨hreads, hbalanced.addRxMissed (hreads.lost hbalanced.baselines)⟩
  | saveBaselines status =>
    obtain ⟨hreads, hbalanced⟩ := hpc
    cases h
    exact ⟨hreads.shows, hbalanced.busErrors, hbalanced.driverRxMissed⟩
  | readAlerts =>
    simp only [taskStep] at h
    split at h <;> cases h <;> exact hpc
  | latchFault pc =>
    simp only [taskStep] at h
    have hnext (c : LifecycleController) :
        m.Balanced { g with lifecycle := c } m.polled.busErrors m.polled.lost :=
      DriverMeter.Balanced.congr hpc rfl (fun _ _ => rfl) rfl rfl rfl
    split at h <;> cases h
    · exact hnext _
    · split_ifs <;> exact hnext _
  | deleted => cases h
  | recordBusOff =>
    cases h
    refine DriverMeter.Balanced.congr hpc rfl (fun k hk => fetchAdd_of_ne _ _ ?_) rfl rfl rfl
    rintro rfl
    cases hk
  | _ =>
    cases h
    exact DriverMeter.Balanced.congr hpc rfl (fun _ _ => rfl) rfl rfl rfl

/-! ## The start of a run -/

def ControlPc.Preparing : ControlPc → Prop
  | install _ | markInstalled _ | twaiStart _ | markStarted _ | clearFrames _ _ | setBusId _
  | recordControllerReset | resetBaselines | setRequested | markTaskCreated | createTask => True
  | _ => False

/-- The counters are taken one by one. -/
def ClearPc.Cleared (mem : FrameRing.Memory queueCapacity) (k : Counter) :
    FrameRing.ClearPc 32 → Prop
  | .loadHead | .storeTail _ => True
  | .snapshot (.depth operation _) => operation = .snapshotAndReset
  | .snapshot (.counters operation _ remaining) =>
    operation = .snapshotAndReset ∧ (k ∉ remaining → mem.counters k = 0)
  | _ => mem.counters k = 0

/-- Nothing has been polled since the installation; the statistics are cleared, and
then the baselines. -/
def ControlPc.Prepared (g : Shared) (m : DriverMeter) : ControlPc → Prop
  | markInstalled _ | twaiStart _ | markStarted _ => m.polled = {}
  | clearFrames _ pc =>
    m.polled = {} ∧ ∀ k : Counter, k.ofDriver = true → ClearPc.Cleared g.frames k pc
  | setBusId _ | recordControllerReset | resetBaselines => m.polled = {} ∧ g.Cleared
  | setRequested | markTaskCreated | createTask =>
    m.polled = {} ∧ g.Cleared ∧ m.polled.Shows g.baselines
  | _ => True

theorem ControlPc.prepared_of_not_preparing {g : Shared} {m : DriverMeter} {pc : ControlPc}
    (h : ¬ pc.Preparing) : pc.Prepared g m := by
  cases pc <;> first | trivial | exact absurd trivial h

theorem ControlPc.countEvents_of_not_preparing {pc : ControlPc} {ok : Bool}
    (h : ¬ pc.Preparing) : pc.countEvents ok = [] := by
  cases pc <;> first | rfl | exact absurd trivial h

theorem clearStep_cleared {mem mem' : FrameRing.Memory queueCapacity} {spurious : Bool}
    {pc pc' : FrameRing.ClearPc 32} {es : List FrameRing.Event} {k : Counter}
    (hpc : ClearPc.Cleared mem k pc)
    (h : FrameRing.clearStep mem spurious pc = some (mem', pc', es)) :
    ClearPc.Cleared mem' k pc' := by
  cases pc with
  | loadHead =>
    cases h
    trivial
  | storeTail head =>
    cases h
    rfl
  | storeWatermark =>
    cases h
    exact hpc
  | done => cases h
  | snapshot pc =>
    cases pc with
    | done operation result =>
      cases h
      exact hpc
    | depth operation pc =>
      simp only [FrameRing.clearStep, FrameRing.snapshotStep, Option.map_eq_some_iff,
        Prod.exists] at h
      obtain ⟨mem'', pc'', es'', hstep, heq⟩ := h
      cases heq
      split at hstep <;> cases hstep
      · exact hpc
      · exact ⟨hpc, fun hmem => absurd (by cases k <;> decide) hmem⟩
    | counters operation result remaining =>
      obtain ⟨rfl, hzero⟩ := hpc
      cases remaining with
      | nil =>
        cases h
        exact hzero (by simp)
      | cons k' ks =>
        cases h
        refine ⟨rfl, fun hmem => ?_⟩
        by_cases hk : k = k'
        · subst hk
          simp [FrameRing.Memory.exchange]
        · have hkept : (mem.exchange k' 0).counters k = mem.counters k :=
            Function.update_of_ne hk _ _
          rw [hkept]
          exact hzero (by simp [hk, hmem])
    | reconcileDepth result pc =>
      simp only [FrameRing.clearStep, FrameRing.snapshotStep, Option.map_eq_some_iff,
        Prod.exists] at h
      obtain ⟨mem'', pc'', es'', hstep, heq⟩ := h
      cases heq
      split at hstep <;> cases hstep <;> exact hpc
    | loadWatermark result depth =>
      cases h
      simp only [FrameRing.SnapshotPc.afterWatermark]
      split_ifs <;> exact hpc
    | raiseWatermark result depth watermark =>
      simp only [FrameRing.clearStep, FrameRing.snapshotStep, FrameRing.SnapshotPc.afterWatermark,
        Option.map_eq_some_iff, Prod.exists] at h
      obtain ⟨mem'', pc'', es'', hstep, heq⟩ := h
      cases heq
      split_ifs at hstep <;> cases hstep <;> exact hpc

theorem Moves.clearing {g g' : Shared} {m m' : DriverMeter} (h : Moves g g' m m') {k : Counter}
    (hk : k.ofDriver = true) {pc : FrameRing.ClearPc 32} (hpc : ClearPc.Cleared g.frames k pc) :
    ClearPc.Cleared g'.frames k pc := by
  cases pc with
  | loadHead | storeTail => trivial
  | snapshot pc =>
    cases pc with
    | depth => exact hpc
    | counters => exact ⟨hpc.1, fun hmem => h.cleared k hk (hpc.2 hmem)⟩
    | _ => exact h.cleared k hk hpc
  | _ => exact h.cleared k hk hpc

theorem Moves.prepared {g g' : Shared} {m m' : DriverMeter} (h : Moves g g' m m')
    {pc : ControlPc} (hpc : pc.Prepared g m) : pc.Prepared g' m' := by
  have hcleared (hg : g.Cleared) : g'.Cleared := fun k hk => h.cleared k hk (hg k hk)
  cases pc with
  | markInstalled | twaiStart | markStarted => exact h.polled.trans hpc
  | clearFrames => exact ⟨h.polled.trans hpc.1, fun k hk => h.clearing hk (hpc.2 k hk)⟩
  | setBusId | recordControllerReset | resetBaselines =>
    exact ⟨h.polled.trans hpc.1, hcleared hpc.2⟩
  | setRequested | markTaskCreated | createTask =>
    refine ⟨h.polled.trans hpc.1, hcleared hpc.2.1, ?_⟩
    rw [h.polled, h.baselines]
    exact hpc.2.2
  | _ => trivial

theorem controlStep_spares {g g' : Shared} {ok : Bool} {pc pc' : ControlPc} {es : List Event}
    (hpc : ¬ pc.Preparing) (h : controlStep g ok pc = some (g', pc', es)) :
    g'.baselines = g.baselines ∧ g'.frames = g.frames ∧
      (pc'.Preparing → ∃ configuration, pc' = .install configuration) := by
  have hnot {pc' : ControlPc} (hpc' : ¬ pc'.Preparing) :
      pc'.Preparing → ∃ configuration, pc' = .install configuration :=
    fun hpreparing => absurd hpreparing hpc'
  cases pc with
  | idle => cases h
  | install | markInstalled | twaiStart | markStarted | clearFrames | setBusId
  | recordControllerReset | resetBaselines | setRequested | markTaskCreated | createTask =>
    exact absurd trivial hpc
  | beginStart | abortStart | beginStop | beginStopAfterTask =>
    simp only [controlStep] at h
    split at h <;> cases h <;> exact ⟨rfl, rfl, hnot id⟩
  | createTaskStopped | readInstalled =>
    simp only [controlStep] at h
    split_ifs at h <;> cases h <;> exact ⟨rfl, rfl, hnot id⟩
  | drainAvailable | drain =>
    simp only [controlStep] at h
    split at h <;> cases h
    · obtain ⟨hbaselines, hframes⟩ := takeAvailable_baselines ‹_›
      exact ⟨hbaselines, hframes, hnot id⟩
    · exact ⟨rfl, rfl, hnot id⟩
  | drainTaskStopped configuration =>
    simp only [controlStep] at h
    split at h <;> cases h
    · obtain ⟨hbaselines, hframes⟩ := takeTaskStopped_baselines ‹_›
      exact ⟨hbaselines, hframes, hnot id⟩
    · exact ⟨rfl, rfl, fun _ => ⟨configuration, rfl⟩⟩
  | waitTask =>
    simp only [controlStep] at h
    split at h <;> split_ifs at h <;> cases h
    · obtain ⟨hbaselines, hframes⟩ := takeTaskStopped_baselines ‹_›
      exact ⟨hbaselines, hframes, hnot id⟩
    · exact ⟨rfl, rfl, hnot id⟩
  | tryTakeTask =>
    cases h
    cases htake : g.takeTaskStopped with
    | none => exact ⟨rfl, rfl, hnot id⟩
    | some g' =>
      obtain ⟨hbaselines, hframes⟩ := takeTaskStopped_baselines htake
      exact ⟨hbaselines, hframes, hnot id⟩
  | uninstallAfterStart | twaiStopAfterTask | uninstallAfterTask | twaiStop | uninstall =>
    cases ok <;> cases h <;> exact ⟨rfl, rfl, hnot id⟩
  | readStarted | readOwned =>
    cases h
    refine ⟨rfl, rfl, hnot ?_⟩
    split_ifs <;> exact id
  | reconcile next pc =>
    simp only [controlStep] at h
    split at h <;> cases h
    · exact ⟨rfl, rfl, hnot id⟩
    · refine ⟨rfl, rfl, hnot ?_⟩
      cases next with
      | stop =>
        simp only [afterReconcile]
        split_ifs <;> exact id
      | _ => exact id
  | _ =>
    cases h
    exact ⟨rfl, rfl, hnot id⟩

theorem controlStep_prepared {g g' : Shared} {ok : Bool} {m : DriverMeter} {pc pc' : ControlPc}
    {es : List Event} (hpc : pc.Prepared g m) (h : controlStep g ok pc = some (g', pc', es)) :
    pc'.Prepared g' (m.after (pc.countEvents ok)) := by
  by_cases hpreparing : pc.Preparing
  · cases pc with
    | install => cases ok <;> cases h <;> trivial
    | twaiStart => cases ok <;> cases h <;> trivial
    | markInstalled =>
      cases h
      exact hpc
    | markStarted =>
      cases h
      exact ⟨hpc, fun _ _ => trivial⟩
    | clearFrames configuration pc =>
      obtain ⟨hpolled, hcleared⟩ := hpc
      cases pc with
      | done =>
        cases h
        exact ⟨hpolled, hcleared⟩
      | _ =>
        simp only [controlStep, Option.map_eq_some_iff, Prod.exists] at h
        obtain ⟨mem, pc'', es', hstep, heq⟩ := h
        cases heq
        exact ⟨hpolled, fun k hk => clearStep_cleared (hcleared k hk) hstep⟩
    | setBusId =>
      cases h
      split_ifs <;> exact hpc
    | recordControllerReset =>
      cases h
      refine ⟨hpc.1, fun k hk => ?_⟩
      have hne : k ≠ .controllerResets := by
        rintro rfl
        cases hk
      exact (fetchAdd_of_ne _ _ hne).trans (hpc.2 k hk)
    | resetBaselines =>
      cases h
      refine ⟨hpc.1, hpc.2, ?_⟩
      have hpolled : m.polled = {} := hpc.1
      change m.polled.Shows _
      rw [hpolled]
      exact ⟨rfl, rfl, rfl⟩
    | setRequested | markTaskCreated =>
      cases h
      exact hpc
    | createTask => cases ok <;> cases h <;> trivial
    | _ => cases hpreparing
  · obtain ⟨-, -, hinstall⟩ := controlStep_spares hpreparing h
    by_cases hnext : pc'.Preparing
    · obtain ⟨configuration, rfl⟩ := hinstall hnext
      trivial
    · exact ControlPc.prepared_of_not_preparing hnext

/-! ## Runs -/

/-- What holds between any two steps of the acquisition with its meter. -/
structure Metered.Accounted (u : Metered) : Prop where
  owned : u.state.control.Owned u.state.shared
  exclusive : u.state.TaskExclusive
  prepared : u.state.control.Prepared u.state.shared u.meter
  booked : ∀ (i : ℕ) (pc : TaskPc), u.state.tasks[i]? = some pc → pc.Live →
    pc.Booked u.state.shared u.meter
  polled : u.meter.polled ≤ u.meter.counts
  read : u.meter.read ≤ u.meter.counts

theorem State.not_liveAt_of_preparing {s : State} (howned : s.control.Owned s.shared)
    (h : s.TaskExclusive) (hpreparing : s.control.Preparing) (i : ℕ) : ¬ s.LiveAt i := by
  by_cases hgone : s.control.TaskGone
  · exact h.gone hgone i
  · intro hlive
    have hflag := h.owned i hlive
    cases hcontrol : s.control <;> rw [hcontrol] at howned hpreparing hgone <;>
      first
        | exact howned.2.not_owned hflag
        | exact hgone trivial
        | exact hpreparing

theorem DriverMeter.le_counts_next {m : DriverMeter} (hpolled : m.polled ≤ m.counts)
    (hread : m.read ≤ m.counts) (e : CountEvent) :
    (m.next e).polled ≤ (m.next e).counts ∧ (m.next e).read ≤ (m.next e).counts := by
  cases e with
  | counted n => exact ⟨DriverCounts.le_add_right hpolled n, DriverCounts.le_add_right hread n⟩
  | installed => exact ⟨DriverCounts.le_refl _, DriverCounts.le_refl _⟩
  | polled => exact ⟨hpolled, DriverCounts.le_refl _⟩
  | saved => exact ⟨hread, hread⟩
  | begun | rejected | reset => exact ⟨hpolled, hread⟩

theorem DriverMeter.le_counts_after {m : DriverMeter} (hpolled : m.polled ≤ m.counts)
    (hread : m.read ≤ m.counts) (es : List CountEvent) :
    (m.after es).polled ≤ (m.after es).counts ∧ (m.after es).read ≤ (m.after es).counts := by
  induction es generalizing m with
  | nil => exact ⟨hpolled, hread⟩
  | cons e es ih =>
    obtain ⟨hpolled', hread'⟩ := m.le_counts_next hpolled hread e
    exact ih hpolled' hread'

theorem Metered.Accounted.elsewhere {u : Metered} {t : State} (h : u.Accounted)
    (howned : t.control.Owned t.shared) (hexclusive : t.TaskExclusive) (es : List CountEvent)
    (hmoves : Moves u.state.shared t.shared u.meter (u.meter.after es))
    (htasks : t.tasks = u.state.tasks)
    (hcontrol : t.control = u.state.control ∨ ¬ t.control.Preparing) :
    Metered.Accounted ⟨t, u.meter.after es⟩ := by
  obtain ⟨hpolled, hread⟩ := u.meter.le_counts_after h.polled h.read es
  refine ⟨howned, hexclusive, ?_, fun i pc hpc hlive => ?_, hpolled, hread⟩
  · change t.control.Prepared _ _
    rcases hcontrol with heq | hnot
    · rw [heq]
      exact hmoves.prepared h.prepared
    · exact ControlPc.prepared_of_not_preparing hnot
  · change t.tasks[i]? = some pc at hpc
    rw [htasks] at hpc
    exact hmoves.booked (h.booked i pc hpc hlive)

theorem DriverMeter.balanced_begun {m : DriverMeter} {g : Shared}
    (h : ControlPc.createTask.Prepared g m) :
    (TaskPc.loopHead).Booked g (m.next .begun) := by
  obtain ⟨hpolled, hcleared, hbaselines⟩ := h
  refine ⟨hbaselines, ?_, ?_⟩
  · change Accumulates 0 (g.frames.counters .busErrors) m.polled.busErrors
    rw [hcleared .busErrors rfl, hpolled]
    exact .zero
  · change Accumulates 0 (g.frames.counters .driverRxMissed) (m.polled.lost + 0)
    rw [hcleared .driverRxMissed rfl, hpolled]
    exact .zero

theorem Metered.Accounted.control {u : Metered} {t : State} {ok : Bool} {es : List Event}
    (h : u.Accounted) (howned : t.control.Owned t.shared) (hexclusive : t.TaskExclusive)
    (hstep : controlStep u.state.shared ok u.state.control = some (t.shared, t.control, es))
    (htasks : t.tasks = u.state.tasks ++ spawned ok u.state.control) :
    Metered.Accounted ⟨t, u.meter.after (u.state.control.countEvents ok)⟩ := by
  obtain ⟨hpolled, hread⟩ :=
    u.meter.le_counts_after h.polled h.read (u.state.control.countEvents ok)
  refine ⟨howned, hexclusive, controlStep_prepared h.prepared hstep, fun i pc hpc hlive => ?_,
    hpolled, hread⟩
  change t.tasks[i]? = some pc at hpc
  by_cases hpreparing : u.state.control.Preparing
  · -- the only live task is the one that is created now
    have hnone := State.not_liveAt_of_preparing h.owned h.exclusive hpreparing
    rw [htasks, List.getElem?_append] at hpc
    split_ifs at hpc with hlt
    · exact absurd ⟨pc, hpc, hlive⟩ (hnone i)
    · have hspawned : spawned ok u.state.control ≠ [] := by
        intro hnil
        simp [hnil] at hpc
      obtain ⟨hcreate, rfl⟩ := spawned_ne_nil hspawned
      have hprepared := h.prepared
      rw [hcreate] at hprepared hstep hpc ⊢
      simp only [controlStep, if_true, Option.some.injEq, Prod.mk.injEq] at hstep
      obtain ⟨hshared, -, -⟩ := hstep
      have hbegun := DriverMeter.balanced_begun hprepared
      rw [hshared] at hbegun
      obtain rfl : pc = .loopHead := by
        have hmem := List.mem_of_getElem? hpc
        simpa [spawned] using hmem
      exact hbegun
  · have hspawned : spawned ok u.state.control = [] := by
      by_contra hspawned
      obtain ⟨hcreate, -⟩ := spawned_ne_nil hspawned
      rw [hcreate] at hpreparing
      exact hpreparing trivial
    have hevents : u.state.control.countEvents ok = [] := by
      apply ControlPc.countEvents_of_not_preparing hpreparing
    obtain ⟨hbaselines, hframes, -⟩ := controlStep_spares hpreparing hstep
    rw [htasks, hspawned, List.append_nil] at hpc
    rw [hevents]
    exact (moves_of_frames hbaselines hframes).booked (h.booked i pc hpc hlive)

theorem TaskPc.countEvents_of_dead {pc : TaskPc} (hpc : ¬ pc.Live) (input : TaskInput) :
    pc.countEvents input = [] := by
  cases pc <;> first | rfl | exact absurd trivial hpc

theorem Metered.Accounted.task {u : Metered} {t : State} {i : ℕ} {input : TaskInput}
    {pc pc' : TaskPc} {es : List Event} (h : u.Accounted) (howned : t.control.Owned t.shared)
    (hexclusive : t.TaskExclusive) (active : u.state.tasks[i]? = some pc)
    (hstatus : pc.polls = true → ∀ status ∈ input.status,
      u.meter.counts.Shows status ∧ u.meter.polled.Near u.meter.counts)
    (hstep : taskStep u.state.shared input pc = some (t.shared, pc', es))
    (hset : t.tasks = u.state.tasks.set i pc') (hcontrol : t.control = u.state.control) :
    Metered.Accounted ⟨t, u.meter.after (pc.countEvents input)⟩ := by
  obtain ⟨hpolled, hread⟩ := u.meter.le_counts_after h.polled h.read (pc.countEvents input)
  by_cases hpc : pc.Live
  · have hlive : u.state.LiveAt i := ⟨pc, active, hpc⟩
    have hpreparing : ¬ u.state.control.Preparing := fun hpreparing =>
      State.not_liveAt_of_preparing h.owned h.exclusive hpreparing i hlive
    refine ⟨howned, hexclusive, ?_, fun j q hq hlive' => ?_, hpolled, hread⟩
    · change t.control.Prepared _ _
      rw [hcontrol]
      exact ControlPc.prepared_of_not_preparing hpreparing
    · change t.tasks[j]? = some q at hq
      rw [hset, List.getElem?_set] at hq
      split_ifs at hq with hij
      · obtain rfl := Option.some.inj hq
        exact taskStep_booked (h.booked i pc active hpc) h.polled hstatus hstep
      · exact absurd (h.exclusive.unique i j hlive ⟨q, hq, hlive'⟩) hij
  · obtain ⟨⟨stopped, hshared⟩, hdead, -⟩ := taskStep_dead hpc hstep
    have hmoves : Moves u.state.shared t.shared u.meter u.meter := by
      rw [hshared]
      exact moves_of_frames rfl rfl
    rw [TaskPc.countEvents_of_dead hpc] at hpolled hread ⊢
    refine ⟨howned, hexclusive, ?_, fun j q hq hlive' => ?_, hpolled, hread⟩
    · change t.control.Prepared _ _
      rw [hcontrol]
      exact hmoves.prepared h.prepared
    · change t.tasks[j]? = some q at hq
      rw [hset, List.getElem?_set] at hq
      split_ifs at hq with hij
      · obtain rfl := Option.some.inj hq
        exact absurd hlive' hdead
      · exact hmoves.booked (h.booked j q hq hlive')

theorem meteredStep_accounted {u v : Metered} {a : MeteredAction} {es : List Event}
    (h : u.Accounted) (hreports : ReportsCounters u a) (hcreates : MeteredCreates u a)
    (hstep : metered.step u a = some (v, es)) : v.Accounted := by
  cases a with
  | count n =>
    cases hstep
    have hmoves : Moves u.state.shared u.state.shared u.meter (u.meter.after [.counted n]) :=
      ⟨rfl, rfl, rfl, rfl, fun _ _ => rfl, fun _ _ => id⟩
    exact h.elsewhere h.owned h.exclusive [.counted n] hmoves rfl (.inl rfl)
  | act a =>
    simp only [metered, meteredStep, Option.map_eq_some_iff, Prod.exists] at hstep
    obtain ⟨t, es', hact, heq⟩ := hstep
    cases heq
    have howned := (step_owned h.owned hact).1
    have hexclusive := step_taskExclusive h.owned h.exclusive hcreates hact
    cases step_cases hact with
    | control hcontrol => exact h.control howned hexclusive hcontrol rfl
    | @task i input pc pc' g es active htask =>
      have hstatus : pc.polls = true → ∀ status ∈ input.status,
          u.meter.counts.Shows status ∧ u.meter.polled.Near u.meter.counts := by
        intro hpolls status hmem
        apply hreports status
        simpa [State.status, active, hpolls] using hmem
      have hnext := h.task howned hexclusive active hstatus htask rfl rfl
      rwa [State.countEvents, active]
    | consumer hconsumer =>
      exact h.elsewhere howned hexclusive [] (receiveStep_moves hconsumer u.meter) rfl (.inl rfl)
    | snapshot active hsnapshot =>
      have hmoves := snapshotStep_moves (m := u.meter) hsnapshot
      rw [State.countEvents, active]
      exact h.elsewhere howned hexclusive _ hmoves rfl (.inl rfl)
    | returnSnapshot active =>
      rw [State.countEvents, active]
      exact h.elsewhere howned hexclusive [] (moves_of_frames rfl rfl) rfl (.inl rfl)
    | start | stop =>
      exact h.elsewhere howned hexclusive [] (moves_of_frames rfl rfl) rfl (.inr id)
    | startInvalid | receive | beginSnapshot | enterBusOff =>
      exact h.elsewhere howned hexclusive [] (moves_of_frames rfl rfl) rfl (.inl rfl)

theorem boot_accounted : ({} : Metered).Accounted :=
  ⟨boot_owned, boot_taskExclusive, trivial, by simp [boot], DriverCounts.le_refl _,
    DriverCounts.le_refl _⟩

/-- The two statistics, with what resets have returned of them since the run began,
are the numbers at the last complete poll: the bus errors of the driver, and its missed
and overrun frames with the frames that the receive task has rejected. -/
structure Metered.Exact (u : Metered) : Prop where
  busErrors : Accumulates (u.meter.returned .busErrors)
    (u.state.shared.frames.counters .busErrors) u.meter.polled.busErrors
  driverRxMissed : Accumulates (u.meter.returned .driverRxMissed)
    (u.state.shared.frames.counters .driverRxMissed)
    (u.meter.polled.rxMissed + u.meter.polled.rxOverrun + u.meter.rejected)

/-- In every run in which no receive task is created over the outstanding
acknowledgement of an earlier one, the statistics are exact whenever a task has just
completed a status poll. -/
theorem driver_counters_exact {as : List MeteredAction} {u : Metered} {es : List Event}
    (hreports : metered.Along ReportsCounters {} as) (hcreates : metered.Along MeteredCreates {} as)
    (hrun : metered.run {} as = some (u, es)) {i : ℕ}
    (hpolled : u.state.tasks[i]? = some .readAlerts) : u.Exact := by
  have haccounted : u.Accounted :=
    metered.run_preserves_along (C := fun u a => ReportsCounters u a ∧ MeteredCreates u a)
      (fun _ _ _ _ h hC hstep => meteredStep_accounted h hC.1 hC.2 hstep) boot_accounted
      (hreports.and hcreates) hrun
  have hbalanced := haccounted.booked i .readAlerts hpolled trivial
  exact ⟨hbalanced.busErrors, hbalanced.driverRxMissed⟩

def TaskPc.hasPolled : TaskPc → Bool
  | readAlerts => true
  | _ => false

theorem eq_readAlerts {o : Option TaskPc} (h : o.any TaskPc.hasPolled = true) :
    o = some .readAlerts := by
  cases o with
  | none => cases h
  | some pc => cases pc <;> first | rfl | cases h

def statusInput (busErrors rxMissed rxOverrun : ℕ) : TaskInput where
  status := some ⟨BitVec.ofNat 32 busErrors, BitVec.ofNat 32 rxMissed, BitVec.ofNat 32 rxOverrun⟩

/-- A frame is rejected and the status polled; an observer resets the statistics; the
bus errors pass the range of their counter, and the status is polled again. -/
def wrapSchedule : List MeteredAction :=
  let task (input : TaskInput) : Action := .task 0 input
  let invalid : TaskInput := { received := .message { dataLengthCode := 9 } 0 }
  let errors : ℕ := 2 ^ 32 - 1
  let reset : List Action :=
    .beginSnapshot 0 .snapshotAndReset :: List.replicate 18 (.observer 0 false)
  (startSchedule 37).map .act ++ [.count ⟨errors, 3, 4⟩] ++
    ([task {}, task invalid, task {}, task (statusInput errors 3 4)] ++
      List.replicate 4 (task {}) ++ reset).map .act ++
    [.count ⟨7, 0, 0⟩] ++
    ([task {}, task {}, task (statusInput (errors + 7) 3 4)] ++
      List.replicate 3 (task {})).map .act

theorem driver_counters_exact_wrap : ∃ u es,
    metered.run {} wrapSchedule = some (u, es) ∧
      u.meter.returned .busErrors = 2 ^ 32 - 1 ∧ u.meter.polled.busErrors = 2 ^ 32 + 6 ∧
      u.state.shared.frames.counters .busErrors = 7 ∧ u.Exact := by
  have hobserved : (metered.run {} wrapSchedule).map (fun p =>
      ((p.1.meter.returned .busErrors, p.1.meter.polled.busErrors,
        p.1.state.shared.frames.counters .busErrors),
        (p.1.state.tasks[0]?).any TaskPc.hasPolled)) =
      some ((2 ^ 32 - 1, 2 ^ 32 + 6, 7), true) := by
    decide +kernel
  have hreports : metered.Along ReportsCounters {} wrapSchedule := by
    decide +kernel
  have hcreates : metered.Along MeteredCreates {} wrapSchedule := by
    decide +kernel
  obtain ⟨⟨u, es⟩, hrun, heq⟩ := Option.map_eq_some_iff.mp hobserved
  simp only [Prod.mk.injEq] at heq
  obtain ⟨⟨hreturned, htrue, hcounter⟩, hpolled⟩ := heq
  exact ⟨u, es, hrun, hreturned, htrue, hcounter,
    driver_counters_exact hreports hcreates hrun (eq_readAlerts hpolled)⟩

/-- The second task is still in its loop when the third one runs. Both read the status
before either of them moves the baselines. -/
def doublePollSchedule : List MeteredAction :=
  let status : TaskInput := statusInput 5 0 0
  overlapSchedule.map .act ++ [.count ⟨5, 0, 0⟩] ++
    ([.task 2 {}, .task 2 {}, .task 2 status, .task 1 status, .task 1 {}] ++
      List.replicate 3 (.task 2 {}) : List Action).map .act

/-- The driver has counted five bus errors, the statistics tell ten. -/
theorem driver_counters_doubled : ∃ u es,
    metered.Along ReportsCounters {} doublePollSchedule ∧
      metered.run {} doublePollSchedule = some (u, es) ∧
      u.state.tasks[2]? = some .readAlerts ∧ u.meter.polled.busErrors = 5 ∧
      u.state.shared.frames.counters .busErrors = 10 ∧ ¬ u.Exact := by
  have hobserved : (metered.run {} doublePollSchedule).map (fun p =>
      ((p.1.meter.returned .busErrors, p.1.meter.polled.busErrors,
        p.1.state.shared.frames.counters .busErrors),
        (p.1.state.tasks[2]?).any TaskPc.hasPolled)) =
      some ((0, 5, 10), true) := by
    decide +kernel
  have hreports : metered.Along ReportsCounters {} doublePollSchedule := by
    decide +kernel
  obtain ⟨⟨u, es⟩, hrun, heq⟩ := Option.map_eq_some_iff.mp hobserved
  simp only [Prod.mk.injEq] at heq
  obtain ⟨⟨hreturned, htrue, hcounter⟩, hpolled⟩ := heq
  refine ⟨u, es, hreports, hrun, eq_readAlerts hpolled, htrue, hcounter, fun hexact => ?_⟩
  have hsum := hexact.busErrors.exact (by rw [htrue]; decide)
  rw [hreturned, hcounter, htrue] at hsum
  exact absurd hsum (by decide)

end CanBus
end VehicleCanCore

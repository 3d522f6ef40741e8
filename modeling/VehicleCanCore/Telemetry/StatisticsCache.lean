import VehicleCanCore.Telemetry.StatisticsRefresh

/-!
# The cache of the source's statistics

The history keeps what the laws speak about: the clock samples that a refresh was
asked for, the answers of the source and the snapshots shown. Two invariants carry
the laws: where the answers of the source are on their way to the diagnostics, and
where the sample times in flight stand to the recorded one.
-/

namespace VehicleCanCore
namespace Telemetry

open Automata

/-! ## The laws -/

/-- No counter is smaller on the left. -/
instance : LE AcquisitionStatistics where
  le a b := a.framesReceived ≤ b.framesReceived ∧ a.framesDropped ≤ b.framesDropped ∧
    a.queueOverflows ≤ b.queueOverflows ∧ a.driverErrors ≤ b.driverErrors ∧
    a.missedFrames ≤ b.missedFrames ∧ a.controllerResets ≤ b.controllerResets ∧
    a.busOffEvents ≤ b.busOffEvents

instance (a b : AcquisitionStatistics) : Decidable (a ≤ b) :=
  inferInstanceAs (Decidable (_ ∧ _))

theorem AcquisitionStatistics.le_refl (a : AcquisitionStatistics) : a ≤ a :=
  ⟨BitVec.le_refl _, BitVec.le_refl _, BitVec.le_refl _, BitVec.le_refl _, BitVec.le_refl _,
    BitVec.le_refl _, BitVec.le_refl _⟩

theorem AcquisitionStatistics.le_trans {a b c : AcquisitionStatistics} (hab : a ≤ b)
    (hbc : b ≤ c) : a ≤ c := by
  obtain ⟨h₁, h₂, h₃, h₄, h₅, h₆, h₇⟩ := hab
  obtain ⟨k₁, k₂, k₃, k₄, k₅, k₆, k₇⟩ := hbc
  exact ⟨BitVec.le_trans h₁ k₁, BitVec.le_trans h₂ k₂, BitVec.le_trans h₃ k₃,
    BitVec.le_trans h₄ k₄, BitVec.le_trans h₅ k₅, BitVec.le_trans h₆ k₆, BitVec.le_trans h₇ k₇⟩

/-- `steady` tells that no sample has been smaller than the one before; `alone`
that no operation was in progress at the worker's last due test; `lastUnforced`
is the sample of the last unforced read begun so. A fresh answer of the source is
one to a read after the last outcome; `growing` tells that no counter of the
source has decreased since the run began. -/
structure StatisticsHistory where
  latestSample : ℕ := 0
  steady : Bool := true
  alone : Bool := false
  lastUnforced : Option ℕ := none
  lastRead : AcquisitionStatistics := {}
  lastReadFresh : Bool := false
  cached : AcquisitionStatistics := {}
  cachedUs : ℕ := 0
  cachedFresh : Bool := false
  growing : Bool := true
  lastShown : Option AcquisitionStatistics := none
  deriving DecidableEq

namespace StatisticsHistory

def next (h : StatisticsHistory) : StatisticsEvent → StatisticsHistory
  | .sampled now =>
    { h with
      latestSample := now.toNat
      steady := h.steady && h.latestSample ≤ now.toNat }
  | .outcome => { h with lastReadFresh := false, cachedFresh := false }
  | .evaluated alone => { h with alone := alone }
  | .triggered now force _ alone =>
    if !force && alone then { h with lastUnforced := some now.toNat } else h
  | .read statistics =>
    { h with
      lastRead := statistics
      lastReadFresh := true
      growing := h.growing && h.lastRead ≤ statistics }
  | .stored now =>
    { h with
      cached := h.lastRead
      cachedUs := now.toNat
      cachedFresh := h.lastReadFresh }
  | .began => { h with growing := true, lastShown := none }
  | .published _ _ _ => h
  | .shown statistics => { h with lastShown := some statistics }

def after (h : StatisticsHistory) (es : List StatisticsEvent) : StatisticsHistory :=
  es.foldl next h

@[simp] theorem after_nil (h : StatisticsHistory) : h.after [] = h := rfl

@[simp] theorem after_cons (h : StatisticsHistory) (e : StatisticsEvent)
    (es : List StatisticsEvent) : h.after (e :: es) = (h.next e).after es := rfl

theorem after_append (h : StatisticsHistory) (es fs : List StatisticsEvent) :
    h.after (es ++ fs) = (h.after es).after fs := List.foldl_append

/-- The laws of the cache, for the next event after a history. -/
def Obeys (h : StatisticsHistory) : StatisticsEvent → Prop
  | .triggered now force recordedUs _ =>
    force = false → recordedUs ≤ now ∧
      (h.steady = true → ∀ last ∈ h.lastUnforced, last + 1000000 ≤ now.toNat)
  | .published outcome time statistics =>
    statistics = h.cached ∧
      (h.steady = true → h.alone = true → time.toNat < h.cachedUs + 1000000) ∧
      (outcome.terminal = true → h.cachedFresh = true)
  | .shown statistics => h.growing = true → ∀ last ∈ h.lastShown, last ≤ statistics
  | _ => True

def Obeyed : StatisticsHistory → List StatisticsEvent → Prop
  | _, [] => True
  | h, e :: es => h.Obeys e ∧ Obeyed (h.next e) es

theorem obeyed_append {h : StatisticsHistory} {es fs : List StatisticsEvent} :
    h.Obeyed (es ++ fs) ↔ h.Obeyed es ∧ (h.after es).Obeyed fs := by
  induction es generalizing h with
  | nil => simp [Obeyed]
  | cons e es ih => simp [Obeyed, ih, and_assoc]

end StatisticsHistory

/-! ## The answers of the source -/

theorem statisticsEvents_skip {r : Runtime} {now : UInt64} (alone : Bool)
    (statistics : AcquisitionStatistics) (hdue : r.acquisitionStatisticsRefreshDue now = false) :
    (RefreshPc.check now false).statisticsEvents r alone statistics = [] := by
  simp [RefreshPc.statisticsEvents, hdue]

theorem statisticsEvents_go {r : Runtime} {now : UInt64} {force : Bool} (alone : Bool)
    (statistics : AcquisitionStatistics)
    (hdue : force = true ∨ r.acquisitionStatisticsRefreshDue now = true) :
    (RefreshPc.check now force).statisticsEvents r alone statistics =
      [.triggered now force r.acquisitionStatisticsSampleUs alone] := by
  rcases hdue with hforce | hdue
  · simp [RefreshPc.statisticsEvents, hforce]
  · simp [RefreshPc.statisticsEvents, hdue]

namespace StatisticsHistory

variable {h : StatisticsHistory} {r r' : Runtime} {mine other : Option RefreshPc}

/-- The last answer of the source is about to be stored by the refresh that got
it, or is what the cache holds; while the source grows, so does what is shown. -/
structure Answers (h : StatisticsHistory) (r : Runtime) (mine other : Option RefreshPc) :
    Prop where
  value : h.cached = r.acquisitionStatisticsCache
  left : ∀ now a, mine = some (.store now a) → a = h.lastRead
  right : ∀ now a, other = some (.store now a) → a = h.lastRead
  settled : (∀ now a, mine ≠ some (.store now a)) → (∀ now a, other ≠ some (.store now a)) →
    h.lastRead = h.cached
  growing : h.growing = true → (∀ last ∈ h.lastShown, last ≤ r.diagnostics.acquisition) ∧
    r.diagnostics.acquisition ≤ h.cached ∧ h.cached ≤ h.lastRead

theorem Answers.symm (ha : h.Answers r mine other) : h.Answers r other mine where
  value := ha.value
  left := ha.right
  right := ha.left
  settled hother hmine := ha.settled hmine hother
  growing := ha.growing

theorem next_triggered (h : StatisticsHistory) (now : UInt64) (force : Bool) (us : UInt64)
    (alone : Bool) : ∃ last, h.next (.triggered now force us alone) =
      { h with lastUnforced := last } := by
  simp only [next]
  split_ifs
  · exact ⟨_, rfl⟩
  · exact ⟨h.lastUnforced, rfl⟩

theorem Answers.refreshStep {statistics : AcquisitionStatistics} {p : RefreshPc}
    {p' : Option RefreshPc} (ha : h.Answers r (some p) other)
    (hx : RefreshExclusive r.refreshing (some p) other) (alone : Bool)
    (hstep : r.refreshStep statistics p = some (r', p')) :
    (h.after (p.statisticsEvents r alone statistics)).Answers r' p' other := by
  cases refreshStep_cases hstep with
  | acquire =>
    exact ⟨ha.value, by simp, ha.right, fun _ hother => ha.settled (by simp) hother, ha.growing⟩
  | skip due =>
    rw [statisticsEvents_skip alone statistics due]
    exact ⟨ha.value, by simp, ha.right, fun _ hother => ha.settled (by simp) hother, ha.growing⟩
  | @go now force due =>
    rw [statisticsEvents_go alone statistics due, after_cons, after_nil]
    obtain ⟨last, heq⟩ := next_triggered h now force r.acquisitionStatisticsSampleUs alone
    rw [heq]
    exact ⟨ha.value, by simp, ha.right, fun _ hother => ha.settled (by simp) hother, ha.growing⟩
  | query =>
    have hnone : ∀ now a, other ≠ some (.store now a) := by
      rintro now a rfl
      simpa [RefreshPc.holds] using hx.apart _ _ rfl rfl rfl
    refine ⟨ha.value, ?_, fun now a hq => absurd hq (hnone now a), ?_, ?_⟩
    · rintro now a ⟨⟩
      rfl
    · intro hmine
      exact absurd rfl (hmine _ _)
    · intro hgrowing
      simp only [RefreshPc.statisticsEvents, after_cons, after_nil, next, Bool.and_eq_true,
        decide_eq_true_eq] at hgrowing ⊢
      obtain ⟨hshown, hcached, hread⟩ := ha.growing hgrowing.1
      exact ⟨hshown, hcached, AcquisitionStatistics.le_trans hread hgrowing.2⟩
  | @store now answer =>
    obtain rfl := ha.left now answer rfl
    have hnone : ∀ now a, other ≠ some (.store now a) := by
      rintro now a rfl
      simpa [RefreshPc.holds] using hx.apart _ _ rfl rfl rfl
    refine ⟨rfl, by simp, fun now a hq => absurd hq (hnone now a), fun _ _ => rfl, ?_⟩
    intro hgrowing
    obtain ⟨hshown, hcached, hread⟩ := ha.growing hgrowing
    exact ⟨hshown, AcquisitionStatistics.le_trans hcached hread, AcquisitionStatistics.le_refl _⟩

theorem Answers.congr {k : StatisticsHistory} (ha : h.Answers r mine other)
    (hlast : k.lastRead = h.lastRead) (hcached : k.cached = h.cached)
    (hgrowing : k.growing = h.growing) (hshown : k.lastShown = h.lastShown)
    (hvalue : r'.acquisitionStatisticsCache = r.acquisitionStatisticsCache)
    (hacquisition : r'.diagnostics.acquisition = r.diagnostics.acquisition) :
    k.Answers r' mine other where
  value := by rw [hcached, hvalue, ha.value]
  left := by simpa only [hlast] using ha.left
  right := by simpa only [hlast] using ha.right
  settled := by simpa only [hlast, hcached] using ha.settled
  growing := by simpa only [hlast, hcached, hgrowing, hshown, hacquisition] using ha.growing

theorem Answers.replace {now : UInt64} {force : Bool} {mine' : Option RefreshPc}
    (ha : h.Answers r none other) (hmine : mine' = none ∨ mine' = some (.acquire now force)) :
    h.Answers r mine' other := by
  have hno : ∀ now a, mine' ≠ some (.store now a) := by
    rintro n a rfl
    rcases hmine with h | h <;> simp at h
  exact ⟨ha.value, fun n a h => absurd h (hno n a), ha.right, fun _ => ha.settled (by simp),
    ha.growing⟩

theorem Answers.shows {d : TransportDiagnostics} (ha : h.Answers r mine other)
    (hd : d.acquisition = r.acquisitionStatisticsCache) :
    h.Answers { r with diagnostics := d } mine other where
  value := ha.value
  left := ha.left
  right := ha.right
  settled := ha.settled
  growing hgrowing := by
    obtain ⟨hshown, hcached, hread⟩ := ha.growing hgrowing
    rw [ha.value] at hcached hread ⊢
    simp only [hd]
    exact ⟨fun last hlast => AcquisitionStatistics.le_trans (hshown last hlast) hcached,
      AcquisitionStatistics.le_refl _, hread⟩

theorem Answers.shown (ha : h.Answers r mine other) {statistics : AcquisitionStatistics}
    (hcurrent : statistics = r.diagnostics.acquisition) :
    (h.next (.shown statistics)).Answers r mine other where
  value := ha.value
  left := ha.left
  right := ha.right
  settled := ha.settled
  growing hgrowing := by
    obtain ⟨-, hcached, hread⟩ := ha.growing hgrowing
    refine ⟨fun last hlast => ?_, hcached, hread⟩
    obtain rfl := Option.some.inj hlast
    rw [hcurrent]
    exact AcquisitionStatistics.le_refl _

theorem Answers.begins {d : TransportDiagnostics} (ha : h.Answers r none other)
    (hother : ∀ now a, other ≠ some (.store now a))
    (hd : d.acquisition = r.acquisitionStatisticsCache) :
    (h.next .began).Answers { r with diagnostics := d } none other := by
  have hsettled := ha.settled (by simp) hother
  refine ⟨ha.value, ha.left, ha.right, ha.settled, fun _ => ⟨by simp [next], ?_, ?_⟩⟩
  · change d.acquisition ≤ h.cached
    rw [hd, ha.value]
    exact AcquisitionStatistics.le_refl _
  · change h.cached ≤ h.lastRead
    rw [hsettled]
    exact AcquisitionStatistics.le_refl _

end StatisticsHistory

/-- What a terminal outcome is still waiting for. -/
def WorkerPc.Fresh (h : StatisticsHistory) : WorkerPc → Prop
  | refresh _ _ _ (.store _ _) => h.lastReadFresh = true
  | record _ outcome _ =>
    outcome.terminal = true → h.lastReadFresh = true ∧ h.cachedFresh = true
  | _ => True

/-- The history of the answers against the state of both threads. -/
structure Runtime.InAnswers (h : StatisticsHistory) (r : Runtime) : Prop where
  answers : h.Answers r r.operation.refreshing (r.worker.bind WorkerPc.refreshing)
  fresh : ∀ w, r.worker = some w → w.Fresh h

theorem Runtime.Gone.finished {platform : Platform} {r : Runtime} (h : r.Gone platform) :
    r.worker.all WorkerPc.isFinished = true := by
  unfold Runtime.Gone at h
  cases hworker : r.worker with
  | none => rfl
  | some w =>
    rw [hworker] at h
    exact h.2

theorem WorkerPc.Fresh.refreshStep {h : StatisticsHistory} {r r' : Runtime} {w : WorkerPc}
    {statistics : AcquisitionStatistics} {p : RefreshPc} {p' : Option RefreshPc} (hw : w.Fresh h)
    (alone : Bool) (hstep : r.refreshStep statistics p = some (r', p')) :
    w.Fresh (h.after (p.statisticsEvents r alone statistics)) := by
  cases refreshStep_cases hstep with
  | acquire => exact hw
  | skip due =>
    rw [statisticsEvents_skip alone statistics due]
    exact hw
  | @go now force due =>
    rw [statisticsEvents_go alone statistics due]
    obtain ⟨last, heq⟩ := h.next_triggered now force r.acquisitionStatisticsSampleUs alone
    rw [StatisticsHistory.after_cons, heq]
    exact hw
  | query =>
    cases w with
    | refresh _ _ _ q =>
      cases q with
      | store => rfl
      | _ => trivial
    | record _ outcome _ => exact fun hterminal => ⟨rfl, (hw hterminal).2⟩
    | _ => trivial
  | store =>
    cases w with
    | refresh _ _ _ q =>
      cases q with
      | store => exact hw
      | _ => trivial
    | record _ outcome _ => exact fun hterminal => ⟨(hw hterminal).1, (hw hterminal).1⟩
    | _ => trivial

theorem WorkerPc.Fresh.congr {h k : StatisticsHistory} {w : WorkerPc} (hw : w.Fresh h)
    (hread : k.lastReadFresh = h.lastReadFresh) (hcached : k.cachedFresh = h.cachedFresh) :
    w.Fresh k := by
  unfold WorkerPc.Fresh at hw ⊢
  rwa [hread, hcached]

theorem Runtime.RefreshStepped.fresh {h : StatisticsHistory} {r r' : Runtime} {budget : WorkBudget}
    {outcome : Outcome} {time : UInt64} {statistics : AcquisitionStatistics} {p : RefreshPc}
    {p' : Option RefreshPc} (hw : (WorkerPc.refresh budget outcome time p).Fresh h)
    (hforced : p.Forced outcome.terminal) (alone : Bool)
    (hstep : r.RefreshStepped statistics p r' p') :
    (p'.elim (WorkerPc.record budget outcome time) (.refresh budget outcome time)).Fresh
      (h.after (p.statisticsEvents r alone statistics)) := by
  cases hstep with
  | acquire | go => trivial
  | skip =>
    intro hterminal
    exact absurd (hforced.trans hterminal) (by simp)
  | query => rfl
  | store =>
    intro _
    exact ⟨hw, hw⟩

theorem refreshDue_iff {r : Runtime} {now : UInt64} :
    r.acquisitionStatisticsRefreshDue now = true ↔ r.acquisitionStatisticsCacheValid = false ∨
      r.acquisitionStatisticsSampleUs.toNat + 1000000 ≤ now.toNat := by
  simp only [Runtime.acquisitionStatisticsRefreshDue, Bool.or_eq_true, Bool.not_eq_true',
    elapsed_iff_toNat]
  exact Iff.rfl

def WorkerPc.evaluated : WorkerPc → Option UInt64
  | refresh _ _ time (.query _) | refresh _ _ time (.store _ _) | record _ _ time => some time
  | _ => none

def WorkerPc.reading : WorkerPc → Bool
  | refresh _ _ _ (.query _) | refresh _ _ _ (.store _ _) => true
  | _ => false

namespace StatisticsHistory

/-- A sample taken by now, and not before the last unforced read. -/
def Within (h : StatisticsHistory) (now : UInt64) : Prop :=
  now.toNat ≤ h.latestSample ∧ ∀ last ∈ h.lastUnforced, last ≤ now.toNat

/-- Where the samples in flight stand to the recorded one; a forced read that was
asked for since the due test is later than the evaluation. -/
structure Timed (h : StatisticsHistory) (r : Runtime) (forced : Option RefreshPc)
    (worker : Option WorkerPc) : Prop where
  sampleUs : r.acquisitionStatisticsCacheValid = true →
    h.cachedUs = r.acquisitionStatisticsSampleUs.toNat
  last : ∀ last ∈ h.lastUnforced, last ≤ h.latestSample
  asked : ∀ p, forced = some p → h.Within p.now
  evaluating : ∀ w t, worker = some w → w.time = some t → h.Within t
  recorded : r.acquisitionStatisticsCacheValid = true → worker.any WorkerPc.reading = false →
    ∀ last ∈ h.lastUnforced, last ≤ r.acquisitionStatisticsSampleUs.toNat
  ordered : h.alone = true → ∀ w t p, worker = some w → w.evaluated = some t → forced = some p →
    t.toNat ≤ p.now.toNat
  recent : h.alone = true → ∀ w t, worker = some w → w.recording = true → w.time = some t →
    t.toNat < h.cachedUs + 1000000

variable {h : StatisticsHistory} {r r' : Runtime} {forced : Option RefreshPc}
  {worker : Option WorkerPc}

theorem Within.sampled {t now : UInt64} (ht : h.Within t) (hnow : h.latestSample ≤ now.toNat) :
    (h.next (.sampled now)).Within t :=
  ⟨ht.1.trans hnow, ht.2⟩

theorem Timed.sampled (ht : h.Timed r forced worker) {now : UInt64}
    (hnow : h.latestSample ≤ now.toNat) : (h.next (.sampled now)).Timed r forced worker where
  sampleUs := ht.sampleUs
  last last hlast := (ht.last last hlast).trans hnow
  asked p hp := (ht.asked p hp).sampled hnow
  evaluating w t hw htime := (ht.evaluating w t hw htime).sampled hnow
  recorded := ht.recorded
  ordered := ht.ordered
  recent := ht.recent

theorem Timed.congr {k : StatisticsHistory} (ht : h.Timed r forced worker)
    (hlatest : k.latestSample = h.latestSample) (hlast : k.lastUnforced = h.lastUnforced)
    (hcached : k.cachedUs = h.cachedUs) (halone : k.alone = h.alone)
    (hvalid : r'.acquisitionStatisticsCacheValid = r.acquisitionStatisticsCacheValid)
    (hus : r'.acquisitionStatisticsSampleUs = r.acquisitionStatisticsSampleUs) :
    k.Timed r' forced worker where
  sampleUs := by rw [hcached, hvalid, hus]; exact ht.sampleUs
  last := by rw [hlast, hlatest]; exact ht.last
  asked p hp := by
    unfold Within
    rw [hlast, hlatest]
    exact ht.asked p hp
  evaluating w t hw htime := by
    unfold Within
    rw [hlast, hlatest]
    exact ht.evaluating w t hw htime
  recorded := by rw [hlast, hvalid, hus]; exact ht.recorded
  ordered := by rw [halone]; exact ht.ordered
  recent := by rw [halone, hcached]; exact ht.recent

theorem Timed.idle (ht : h.Timed r forced worker) {worker' : Option WorkerPc}
    (hbefore : worker.any WorkerPc.reading = false)
    (hafter : ∀ w, worker' = some w → w = .begin) : h.Timed r forced worker' where
  sampleUs := ht.sampleUs
  last := ht.last
  asked := ht.asked
  evaluating w t hw htime := by
    obtain rfl := hafter w hw
    cases htime
  recorded hvalid _ := ht.recorded hvalid hbefore
  ordered _ w t p hw hevaluated := by
    obtain rfl := hafter w hw
    cases hevaluated
  recent _ w t hw hrecording := by
    obtain rfl := hafter w hw
    cases hrecording

theorem Timed.follows {p q : RefreshPc} (ht : h.Timed r (some p) worker) (hnow : q.now = p.now) :
    h.Timed r (some q) worker where
  sampleUs := ht.sampleUs
  last := ht.last
  asked := by
    rintro _ ⟨⟩
    rw [hnow]
    exact ht.asked p rfl
  evaluating := ht.evaluating
  recorded := ht.recorded
  ordered := by
    rintro halone w t _ hw hevaluated ⟨⟩
    rw [hnow]
    exact ht.ordered halone w t p hw hevaluated rfl
  recent := ht.recent

theorem Timed.forgets {pc : OperationPc} (ht : h.Timed r forced worker) :
    h.Timed { r.resetAcquisitionStatisticsCacheState with operation := pc } forced worker where
  sampleUs := by simp [Runtime.resetAcquisitionStatisticsCacheState]
  last := ht.last
  asked := ht.asked
  evaluating := ht.evaluating
  recorded := by simp [Runtime.resetAcquisitionStatisticsCacheState]
  ordered := ht.ordered
  recent := ht.recent

end StatisticsHistory

/-- As long as the samples do not decrease. -/
def Runtime.InTime (h : StatisticsHistory) (r : Runtime) : Prop :=
  h.steady = true → h.Timed r r.operation.refreshing r.worker

/-- An unforced read of the worker is due: the cache is valid and old enough. -/
theorem Runtime.InTime.triggered {platform : Platform} {h : StatisticsHistory} {r : Runtime}
    {budget : WorkBudget} {outcome : Outcome} {now : UInt64} {force : Bool}
    (hr : r.Cached platform) (ht : r.InTime h)
    (active : r.worker = some (.refresh budget outcome now (.check now force)))
    (hdue : force = true ∨ r.acquisitionStatisticsRefreshDue now = true) (alone : Bool) :
    h.Obeys (.triggered now force r.acquisitionStatisticsSampleUs alone) := by
  rintro rfl
  have hvalid := hr.warm _ active rfl
  have hold : r.acquisitionStatisticsSampleUs.toNat + 1000000 ≤ now.toNat := by
    have hread := refreshDue_iff.mp (hdue.resolve_left (by simp))
    exact hread.resolve_left (by simp [hvalid])
  constructor
  · rw [UInt64.le_iff_toNat_le]
    omega
  · intro hsteady last hlast
    have htimed := ht hsteady
    rw [active] at htimed
    have hrecorded := htimed.recorded hvalid rfl last hlast
    omega

/-- The snapshot of the worker carries the cache, which is recent and, after a
terminal outcome, fresh. -/
theorem Runtime.InAnswers.published {h : StatisticsHistory} {r : Runtime}
    {budget : WorkBudget} {outcome : Outcome} {time : UInt64} (ha : r.InAnswers h)
    (ht : r.InTime h) (active : r.worker = some (.record budget outcome time)) :
    h.Obeys (.published outcome time r.acquisitionStatisticsCache) := by
  refine ⟨ha.answers.value.symm, fun hsteady halone => ?_, fun hterminal => ?_⟩
  · exact (ht hsteady).recent halone _ time active rfl rfl
  · exact (ha.fresh _ active hterminal).2

end Telemetry
end VehicleCanCore

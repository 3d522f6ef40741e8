import VehicleCanCore.CanBus.RingDepth
import VehicleCanCore.CanBus.SequentialRing

/-!
# The high watermark across statistics resets

A reset overwrites the watermark with a sample that may be stale, and a
producer raises it only after its frame is visible. Neither is wrong for good:
as long as the watermark is below the depth, some call in progress still has to
raise it to at least that depth.
-/

namespace VehicleCanCore
namespace CanBus

/-- A statistics record with values that a ring of this capacity can have. -/
def Statistics.Within {w : ℕ} (C : FrameRing.Capacity w) (result : Statistics) : Prop :=
  result.queueDepth.toNat ≤ C.size ∧ result.queueHighWatermark.toNat ≤ C.size

namespace FrameRing

open VehicleCanCore.Core Automata

variable {w : ℕ} {C : Capacity w}

theorem toNat_setWidth_le (n : BitVec w) : (n.setWidth 32).toNat ≤ n.toNat := by
  rw [BitVec.toNat_setWidth]
  exact Nat.mod_le _ _

theorem toNat_setWidth_of_le (hfits : C.size < 2 ^ 32) {n : BitVec w} (h : n.toNat ≤ C.size) :
    (n.setWidth 32).toNat = n.toNat := by
  rw [BitVec.toNat_setWidth, Nat.mod_eq_of_lt (h.trans_lt hfits)]

theorem toNat_succ_sub {head tail : BitVec w} (h : (head - tail).toNat < C.size) :
    (head + 1#w - tail).toNat = (head - tail).toNat + 1 :=
  ({ head := head, tail := tail } : Memory C).held_advanceHead h

/-! ## Every value of the watermark is within the capacity -/

/-- What the producer is about to store exceeds what it last saw. -/
def PushPc.Within (C : Capacity w) : PushPc w → Prop
  | .loadWatermark depth => depth.toNat ≤ C.size
  | .raiseWatermark depth watermark => depth.toNat ≤ C.size ∧ watermark < depth
  | _ => True

def SnapshotPc.Within (C : Capacity w) : SnapshotPc w → Prop
  | .depth _ _ => True
  | .counters _ result _ | .reconcileDepth result _ | .done _ result => result.Within C
  | .loadWatermark result sample => result.Within C ∧ sample.toNat ≤ C.size
  | .raiseWatermark result sample watermark =>
    result.Within C ∧ sample.toNat ≤ C.size ∧ watermark < sample

theorem PushPc.within_afterWatermark {depth : BitVec 32} (h : depth.toNat ≤ C.size)
    (watermark : BitVec 32) : (PushPc.afterWatermark depth watermark : PushPc w).Within C := by
  unfold PushPc.afterWatermark
  split_ifs with hlow
  · exact ⟨h, hlow⟩
  · trivial

theorem SnapshotPc.within_afterWatermark {result : Statistics} (hresult : result.Within C)
    {depth : BitVec 32} (h : depth.toNat ≤ C.size) (watermark : BitVec 32) :
    (SnapshotPc.afterWatermark result depth watermark : SnapshotPc w).Within C := by
  unfold SnapshotPc.afterWatermark
  split_ifs with hlow
  · exact ⟨hresult, h, hlow⟩
  · exact hresult

theorem depthStep_within {m : Memory C} {pc : DepthPc w} {depth : BitVec 32}
    (h : depthStep m pc = .inr depth) : depth.toNat ≤ C.size := by
  cases pc with
  | tailBefore | head => cases h
  | tailAfter tailBefore head =>
    simp only [depthStep] at h
    split_ifs at h with hmoved hbound
    obtain rfl := Sum.inr.inj h
    exact (toNat_setWidth_le _).trans hbound

theorem pushStep_within {m m' : Memory C} {spurious : Bool} {pc pc' : PushPc w} {es : List Event}
    (hindexed : pc.Indexed m) (hm : m.queueHighWatermark.toNat ≤ C.size) (hpc : pc.Within C)
    (h : pushStep m spurious pc = some (m', pc', es)) :
    m'.queueHighWatermark.toNat ≤ C.size ∧ pc'.Within C := by
  cases pc with
  | loadTail frame head =>
    simp only [pushStep] at h
    split_ifs at h <;> cases h <;> exact ⟨hm, trivial⟩
  | storeHead frame head tail =>
    cases h
    obtain ⟨-, -, hfree⟩ := hindexed
    refine ⟨hm, (toNat_setWidth_le _).trans ?_⟩
    -- the stale tail still leaves a free slot, so the next head is in reach
    rw [toNat_succ_sub hfree]
    exact hfree
  | loadWatermark depth =>
    cases h
    exact ⟨hm, PushPc.within_afterWatermark hpc _⟩
  | raiseWatermark depth watermark =>
    simp only [pushStep] at h
    split_ifs at h <;> cases h
    · exact ⟨hpc.1, trivial⟩
    · exact ⟨hm, PushPc.within_afterWatermark hpc.1 _⟩
  | countReceived | loadHead | countDropped | countOverflow | writeSlot | countQueued =>
    cases h
    exact ⟨hm, trivial⟩
  | done => cases h

theorem snapshotStep_within {m m' : Memory C} {spurious : Bool} {pc pc' : SnapshotPc w}
    {es : List Event} (hm : m.queueHighWatermark.toNat ≤ C.size) (hpc : pc.Within C)
    (h : snapshotStep m spurious pc = some (m', pc', es)) :
    m'.queueHighWatermark.toNat ≤ C.size ∧ pc'.Within C := by
  cases pc with
  | depth operation pc =>
    simp only [snapshotStep] at h
    split at h <;> cases h
    · exact ⟨hm, trivial⟩
    · exact ⟨hm, depthStep_within ‹_›, Nat.zero_le _⟩
  | counters operation result remaining =>
    cases operation <;> cases remaining <;> cases h
    · exact ⟨hm, hpc.1, hm⟩
    · exact ⟨hm, hpc⟩
    · exact ⟨hpc.1, hpc.1, hm⟩
    · exact ⟨hm, hpc⟩
  | reconcileDepth result pc =>
    simp only [snapshotStep] at h
    split at h <;> cases h
    · exact ⟨hm, hpc⟩
    · exact ⟨hm, hpc, depthStep_within ‹_›⟩
  | loadWatermark result depth =>
    cases h
    exact ⟨hm, SnapshotPc.within_afterWatermark hpc.1 hpc.2 _⟩
  | raiseWatermark result depth watermark =>
    simp only [snapshotStep] at h
    split_ifs at h <;> cases h
    · exact ⟨hpc.2.1, hpc.1⟩
    · exact ⟨hm, SnapshotPc.within_afterWatermark hpc.1 hpc.2.1 _⟩
  | done => cases h

/-- The watermark, and every value on its way into it or into a report. -/
structure Within (s : State C) : Prop where
  watermark : s.memory.queueHighWatermark.toNat ≤ C.size
  producer : ∀ pc, s.producer = some pc → pc.Within C
  observers : ∀ i pc, s.observers i = some pc → pc.Within C

theorem within_cleared (m : Memory C) : Within (cleared m) where
  watermark := Nat.zero_le _
  producer := by simp [cleared]
  observers := by simp [cleared]

theorem Within.setObserver {s : State C} (h : Within s) {m : Memory C}
    (hm : m.queueHighWatermark.toNat ≤ C.size) {i : ℕ} {pc : Option (SnapshotPc w)}
    (hpc : ∀ qc, pc = some qc → qc.Within C) :
    Within ({ s with memory := m }.setObserver i pc) where
  watermark := hm
  producer := h.producer
  observers j qc hqc := by
    by_cases hj : j = i
    · subst hj
      apply hpc
      simpa [State.setObserver] using hqc
    · apply h.observers j
      simpa [State.setObserver, hj] using hqc

/-- What the snapshots that have returned report. -/
def Event.report? : Event → Option Statistics
  | snapshotReturned _ result => some result
  | _ => none

def reports (tr : List Event) : List Statistics := tr.filterMap Event.report?

@[simp] theorem reports_append (tr es : List Event) :
    reports (tr ++ es) = reports tr ++ reports es := List.filterMap_append

theorem pushStep_reports {m m' : Memory C} {spurious : Bool} {pc pc' : PushPc w}
    {es : List Event} (h : pushStep m spurious pc = some (m', pc', es)) : reports es = [] := by
  cases pc with
  | loadTail | raiseWatermark =>
    simp only [pushStep] at h
    split_ifs at h <;> cases h <;> rfl
  | done => cases h
  | _ =>
    cases h
    rfl

theorem popStep_watermark {m m' : Memory C} {pc pc' : PopPc w} {es : List Event}
    (h : popStep m pc = some (m', pc', es)) :
    m'.queueHighWatermark = m.queueHighWatermark ∧ reports es = [] := by
  cases pc with
  | loadHead =>
    simp only [popStep] at h
    split_ifs at h <;> cases h <;> exact ⟨rfl, rfl⟩
  | done => cases h
  | _ =>
    cases h
    exact ⟨rfl, rfl⟩

theorem snapshotStep_reports {m m' : Memory C} {spurious : Bool} {pc pc' : SnapshotPc w}
    {es : List Event} (h : snapshotStep m spurious pc = some (m', pc', es)) : reports es = [] := by
  cases pc with
  | depth | reconcileDepth =>
    simp only [snapshotStep] at h
    split at h <;> cases h <;> rfl
  | counters operation result remaining =>
    cases operation <;> cases remaining <;> cases h <;> rfl
  | loadWatermark =>
    cases h
    rfl
  | raiseWatermark =>
    simp only [snapshotStep] at h
    split_ifs at h <;> cases h <;> rfl
  | done => cases h

theorem within_step {s t : State C} {a : Action} {es : List Event} (hindexed : Indexed s)
    (h : Within s) (hstep : step s a = some (t, es)) :
    Within t ∧ ∀ result ∈ reports es, result.Within C := by
  cases step_cases hstep with
  | beginPush | returnPush =>
    refine ⟨⟨h.watermark, ?_, h.observers⟩, by simp [reports, Event.report?]⟩
    rintro _ ⟨⟩ <;> trivial
  | push active hpush =>
    obtain ⟨hm, hpc⟩ :=
      pushStep_within (hindexed.producer _ active) h.watermark (h.producer _ active) hpush
    exact ⟨⟨hm, by rintro _ ⟨⟩; exact hpc, h.observers⟩, by simp [pushStep_reports hpush]⟩
  | pop active hpop =>
    obtain ⟨hm, hreports⟩ := popStep_watermark hpop
    exact ⟨⟨hm ▸ h.watermark, h.producer, h.observers⟩, by simp [hreports]⟩
  | beginPop | returnPop | record =>
    exact ⟨⟨h.watermark, h.producer, h.observers⟩, by simp [reports, Event.report?]⟩
  | beginSnapshot idle =>
    refine ⟨h.setObserver h.watermark ?_, by simp [reports]⟩
    rintro _ ⟨⟩
    trivial
  | snapshot active hsnap =>
    obtain ⟨hm, hpc⟩ := snapshotStep_within h.watermark (h.observers _ _ active) hsnap
    refine ⟨h.setObserver hm ?_, by simp [snapshotStep_reports hsnap]⟩
    rintro _ ⟨⟩
    exact hpc
  | returnSnapshot active =>
    refine ⟨h.setObserver h.watermark (by simp), ?_⟩
    intro result hmem
    obtain rfl : result = _ := by simpa [reports, Event.report?] using hmem
    exact h.observers _ _ active

theorem run_within {m : Memory C} {as : List Action} {s : State C} {tr : List Event}
    (hrun : (machine C).run (cleared m) as = some (s, tr)) :
    Within s ∧ ∀ result ∈ reports tr, result.Within C := by
  refine (machine C).run_induction
    (P := fun tr s => Within s ∧ ∀ result ∈ reports tr, result.Within C) ?_ ?_ hrun
  · exact ⟨within_cleared m, by simp [reports]⟩
  · intro _ tr s a t es hrun ih hstep
    obtain ⟨hwithin, hreports⟩ := within_step (run_indexed hrun) ih.1 hstep
    refine ⟨hwithin, fun result hmem => ?_⟩
    rw [reports_append, List.mem_append] at hmem
    exact hmem.elim (ih.2 result) (hreports result)

/-! ## A watermark below the depth is being raised -/

/-- The producer still has to raise the watermark to what the ring holds. -/
def PushPc.Raises (held : ℕ) : PushPc w → Prop
  | .loadWatermark depth | .raiseWatermark depth _ => held ≤ depth.toNat
  | _ => False

/-- A reset that still has to raise the watermark to what the ring holds: it has
not loaded the head again, or it has and no frame was published since. -/
def SnapshotPc.Reconciles (m : Memory C) : SnapshotPc w → Prop
  | .reconcileDepth _ (.tailAfter _ head) => head = m.head
  | .reconcileDepth _ _ => True
  | .loadWatermark _ sample | .raiseWatermark _ sample _ => m.held ≤ sample.toNat
  | _ => False

theorem PushPc.raises_afterWatermark {held : ℕ} {depth : BitVec 32} (h : held ≤ depth.toNat)
    (watermark : BitVec 32) :
    (PushPc.afterWatermark depth watermark : PushPc w).Raises held ∨ held ≤ watermark.toNat := by
  unfold PushPc.afterWatermark
  split_ifs with hlow
  · exact .inl h
  · right
    rw [BitVec.lt_def] at hlow
    omega

theorem SnapshotPc.reconciles_afterWatermark (m : Memory C) (result : Statistics)
    (sample watermark : BitVec 32) :
    (SnapshotPc.afterWatermark result sample watermark : SnapshotPc w).Reconciles m ∨
      (m.held ≤ sample.toNat → m.held ≤ watermark.toNat) := by
  unfold SnapshotPc.afterWatermark
  split_ifs with hlow
  · by_cases hheld : m.held ≤ sample.toNat
    · exact .inl hheld
    · exact .inr fun h => absurd h hheld
  · right
    rw [BitVec.lt_def] at hlow
    omega

/-- A step of `push` that publishes a frame leaves the producer raising; any
other leaves the indices alone, never lowers the watermark, and does not stop
raising before the watermark has caught up. -/
theorem pushStep_raises (hfits : C.size < 2 ^ 32) {m m' : Memory C} {spurious : Bool}
    {pc pc' : PushPc w} {es : List Event} (hindexed : pc.Indexed m) (hpc : pc.Within C)
    (h : pushStep m spurious pc = some (m', pc', es)) :
    pc'.Raises m'.held ∨
      (m.SameIndices m' ∧ m.queueHighWatermark.toNat ≤ m'.queueHighWatermark.toNat ∧
        (pc.Raises m.held → pc'.Raises m.held ∨ m.held ≤ m'.queueHighWatermark.toNat)) := by
  cases pc with
  | storeHead frame head tail =>
    obtain ⟨rfl, hheld, hfree⟩ := hindexed
    cases h
    left
    have hgrown := m.held_advanceHead (hheld.trans_lt hfree)
    have hnext := toNat_succ_sub hfree
    change m.advanceHead.held ≤ ((m.head + 1#w - tail).setWidth 32).toNat
    rw [toNat_setWidth_of_le hfits (by omega), hnext]
    omega
  | loadWatermark depth =>
    cases h
    right
    exact ⟨m.sameIndices_refl, le_rfl, fun hraises => PushPc.raises_afterWatermark hraises _⟩
  | raiseWatermark depth watermark =>
    right
    simp only [pushStep] at h
    split_ifs at h with hwon <;> cases h
    · obtain ⟨-, hlow⟩ := hpc
      rw [← hwon.2, BitVec.lt_def] at hlow
      exact ⟨(m.sameQueue_watermark depth).sameIndices, hlow.le, fun hraises => .inr hraises⟩
    · exact ⟨m.sameIndices_refl, le_rfl, fun hraises => PushPc.raises_afterWatermark hraises _⟩
  | loadTail frame head =>
    right
    simp only [pushStep] at h
    split_ifs at h <;> cases h <;> exact ⟨m.sameIndices_refl, le_rfl, False.elim⟩
  | countReceived | loadHead | countDropped | countOverflow | writeSlot | countQueued =>
    cases h
    right
    exact ⟨⟨rfl, rfl⟩, le_rfl, False.elim⟩
  | done => cases h

/-- A step of a snapshot leaves it reconciling, or it has not lowered the
watermark and does not stop reconciling before the watermark has caught up. -/
theorem snapshotStep_reconciles (hfits : C.size < 2 ^ 32) {m m' : Memory C} {spurious : Bool}
    {pc pc' : SnapshotPc w} {es : List Event} (hpc : pc.Within C)
    (h : snapshotStep m spurious pc = some (m', pc', es)) :
    pc'.Reconciles m' ∨
      (m.queueHighWatermark.toNat ≤ m'.queueHighWatermark.toNat ∧
        (pc.Reconciles m → m.held ≤ m'.queueHighWatermark.toNat)) := by
  cases pc with
  | depth operation pc =>
    simp only [snapshotStep] at h
    split at h <;> cases h <;> exact .inr ⟨le_rfl, False.elim⟩
  | counters operation result remaining =>
    cases operation <;> cases remaining <;> cases h
    · exact .inr ⟨le_rfl, False.elim⟩
    · exact .inr ⟨le_rfl, False.elim⟩
    · exact .inl trivial
    · exact .inr ⟨le_rfl, False.elim⟩
  | reconcileDepth result pc =>
    cases pc with
    | tailBefore =>
      cases h
      exact .inl trivial
    | head tailBefore =>
      cases h
      exact .inl rfl
    | tailAfter tailBefore head =>
      simp only [snapshotStep, depthStep] at h
      split_ifs at h with hmoved hbound <;> cases h
      · exact .inl trivial
      · by_cases hhead : head = m.head
        · subst hhead
          left
          change m.held ≤ ((m.head - m.tail).setWidth 32).toNat
          rw [toNat_setWidth_of_le hfits hbound]
          exact le_rfl
        · exact .inr ⟨le_rfl, fun h => absurd h hhead⟩
      · exact .inl trivial
  | loadWatermark result sample =>
    cases h
    exact (SnapshotPc.reconciles_afterWatermark m result sample _).imp_right fun h => ⟨le_rfl, h⟩
  | raiseWatermark result sample watermark =>
    simp only [snapshotStep] at h
    split_ifs at h with hwon <;> cases h
    · obtain ⟨-, -, hlow⟩ := hpc
      rw [← hwon.2, BitVec.lt_def] at hlow
      exact .inr ⟨hlow.le, fun hreconciles => hreconciles⟩
    · exact (SnapshotPc.reconciles_afterWatermark m result sample _).imp_right
        fun h => ⟨le_rfl, h⟩
  | done => cases h

/-- The watermark has caught up with the depth or some call still raises it. -/
def Covered (s : State C) : Prop :=
  s.memory.held ≤ s.memory.queueHighWatermark.toNat ∨
    (∃ pc, s.producer = some pc ∧ pc.Raises s.memory.held) ∨
    ∃ i pc, s.observers i = some pc ∧ pc.Reconciles s.memory

theorem PushPc.Raises.mono {n k : ℕ} {pc : PushPc w} (h : pc.Raises n) (hle : k ≤ n) :
    pc.Raises k := by
  cases pc with
  | loadWatermark | raiseWatermark => exact hle.trans h
  | _ => exact h

theorem SnapshotPc.Reconciles.mono {m m' : Memory C} {pc : SnapshotPc w} (h : pc.Reconciles m)
    (hhead : m'.head = m.head) (hheld : m'.held ≤ m.held) : pc.Reconciles m' := by
  cases pc with
  | reconcileDepth result pc =>
    cases pc with
    | tailAfter => exact h.trans hhead.symm
    | _ => trivial
  | loadWatermark | raiseWatermark => exact hheld.trans h
  | _ => exact h

theorem Covered.pop {s t : State C} (h : Covered s) (hhead : t.memory.head = s.memory.head)
    (hheld : t.memory.held ≤ s.memory.held)
    (hwatermark : t.memory.queueHighWatermark = s.memory.queueHighWatermark)
    (hproducer : t.producer = s.producer) (hobservers : t.observers = s.observers) :
    Covered t := by
  rcases h with hcaught | ⟨pc, hpc, hraises⟩ | ⟨i, pc, hpc, hreconciles⟩
  · left
    rw [hwatermark]
    exact hheld.trans hcaught
  · exact .inr (.inl ⟨pc, hproducer ▸ hpc, hraises.mono hheld⟩)
  · exact .inr (.inr ⟨i, pc, hobservers ▸ hpc, hreconciles.mono hhead hheld⟩)

theorem Covered.push (hfits : C.size < 2 ^ 32) {s : State C} {spurious : Bool} {pc pc' : PushPc w}
    {m : Memory C} {es : List Event} (h : Covered s) (hindexed : Indexed s) (hwithin : Within s)
    (active : s.producer = some pc) (hpush : pushStep s.memory spurious pc = some (m, pc', es)) :
    Covered { s with memory := m, producer := some pc' } := by
  rcases pushStep_raises hfits (hindexed.producer _ active) (hwithin.producer _ active) hpush with
    hraises | ⟨hsame, hmono, hraises⟩
  · exact .inr (.inl ⟨pc', rfl, hraises⟩)
  have hheld := hsame.held_eq
  rcases h with hcaught | ⟨qc, hqc, hraising⟩ | ⟨i, qc, hqc, hreconciles⟩
  · left
    change m.held ≤ m.queueHighWatermark.toNat
    omega
  · rw [active] at hqc
    cases hqc
    rcases hraises hraising with hpc' | hcaught
    · exact .inr (.inl ⟨pc', rfl, hpc'.mono hheld.le⟩)
    · exact .inl (hheld.le.trans hcaught)
  · exact .inr (.inr ⟨i, qc, hqc, hreconciles.mono hsame.1 hheld.le⟩)

theorem Covered.setObserver {s : State C} {i : ℕ} (h : Covered s)
    (hnot : ∀ pc, s.observers i = some pc → ¬ pc.Reconciles s.memory)
    (pc : Option (SnapshotPc w)) : Covered (s.setObserver i pc) := by
  rcases h with hcaught | hraises | ⟨j, qc, hqc, hreconciles⟩
  · exact .inl hcaught
  · exact .inr (.inl hraises)
  · have hj : j ≠ i := by
      rintro rfl
      exact hnot qc hqc hreconciles
    refine .inr (.inr ⟨j, qc, ?_, hreconciles⟩)
    simpa [State.setObserver, hj] using hqc

theorem Covered.snapshot (hfits : C.size < 2 ^ 32) {s : State C} {i : ℕ} {spurious : Bool}
    {pc pc' : SnapshotPc w} {m : Memory C} {es : List Event} (h : Covered s) (hwithin : Within s)
    (active : s.observers i = some pc)
    (hsnap : snapshotStep s.memory spurious pc = some (m, pc', es)) :
    Covered ({ s with memory := m }.setObserver i (some pc')) := by
  have hsame := (snapshotStep_sameQueue hsnap).1.sameIndices
  have hheld := hsame.held_eq
  rcases snapshotStep_reconciles hfits (hwithin.observers i pc active) hsnap with
    hreconciles | ⟨hmono, hcatches⟩
  · exact .inr (.inr ⟨i, pc', by simp [State.setObserver], hreconciles⟩)
  by_cases hcaught : s.memory.held ≤ m.queueHighWatermark.toNat
  · exact .inl (hheld.le.trans hcaught)
  rcases h with hcaught' | ⟨qc, hqc, hraises⟩ | ⟨j, qc, hqc, hreconciles⟩
  · omega
  · exact .inr (.inl ⟨qc, hqc, hraises.mono hheld.le⟩)
  · have hj : j ≠ i := by
      rintro rfl
      rw [active] at hqc
      cases hqc
      exact hcaught (hcatches hreconciles)
    refine .inr (.inr ⟨j, qc, ?_, hreconciles.mono hsame.1 hheld.le⟩)
    simpa [State.setObserver, hj] using hqc

theorem covered_step (hfits : C.size < 2 ^ 32) {s t : State C} {a : Action} {es : List Event}
    (hindexed : Indexed s) (hwithin : Within s) (h : Covered s)
    (hstep : step s a = some (t, es)) : Covered t := by
  cases step_cases hstep with
  | beginPush idle =>
    rcases h with hcaught | ⟨pc, hpc, -⟩ | hreconciles
    · exact .inl hcaught
    · simp [idle] at hpc
    · exact .inr (.inr hreconciles)
  | push active hpush => exact h.push hfits hindexed hwithin active hpush
  | returnPush active =>
    rcases h with hcaught | ⟨pc, hpc, hraises⟩ | hreconciles
    · exact .inl hcaught
    · rw [active] at hpc
      cases hpc
      exact hraises.elim
    · exact .inr (.inr hreconciles)
  | pop active hpop =>
    have hwatermark := (popStep_watermark hpop).1
    rcases popStep_indices (hindexed.consumer _ active) hpop with
      ⟨hsame, -⟩ | ⟨frame, -, hpos, rfl, -, -⟩
    · exact h.pop hsame.1 hsame.held_eq.le hwatermark rfl rfl
    · have hshrunk := s.memory.held_advanceTail hpos
      refine h.pop rfl ?_ hwatermark rfl rfl
      change s.memory.advanceTail.held ≤ s.memory.held
      omega
  | beginPop | returnPop | record => exact h.pop rfl le_rfl rfl rfl rfl
  | beginSnapshot idle => exact h.setObserver (by simp [idle]) _
  | snapshot active hsnap => exact h.snapshot hfits hwithin active hsnap
  | returnSnapshot active =>
    apply h.setObserver
    rintro pc hpc
    rw [active] at hpc
    cases hpc
    exact id

theorem run_covered (hfits : C.size < 2 ^ 32) {m : Memory C} {as : List Action} {s : State C}
    {tr : List Event} (hrun : (machine C).run (cleared m) as = some (s, tr)) : Covered s := by
  refine (machine C).run_induction (P := fun _ s => Covered s) ?_ ?_ hrun
  · left
    simp [cleared, Memory.clear, Memory.held]
  · intro _ tr s a t es hrun ih hstep
    exact covered_step hfits (run_indexed hrun) (run_within hrun).1 ih hstep

def SnapshotPc.operation : SnapshotPc w → StatisticsOperation
  | .depth operation _ | .counters operation _ _ | .done operation _ => operation
  | .reconcileDepth _ _ | .loadWatermark _ _ | .raiseWatermark _ _ _ => .snapshotAndReset

theorem SnapshotPc.Reconciles.operation_eq {m : Memory C} {pc : SnapshotPc w}
    (h : pc.Reconciles m) : pc.operation = .snapshotAndReset := by
  cases pc with
  | depth | counters | done => exact h.elim
  | _ => rfl

/-- For every interleaving: what the watermark and the reports contain is within
the capacity, and with no push and no reset in progress the watermark is at
least the live depth, as long as a `uint32_t` can count the slots. -/
theorem watermark_reconciled (m : Memory C) {as : List Action} {s : State C} {tr : List Event}
    (hrun : (machine C).run (cleared m) as = some (s, tr)) :
    (∀ result ∈ reports tr, result.queueDepth.toNat ≤ C.size ∧
      result.queueHighWatermark.toNat ≤ C.size) ∧
    s.memory.queueHighWatermark.toNat ≤ C.size ∧
    (C.size < 2 ^ 32 → s.producer = none →
      (∀ i pc, s.observers i = some pc → pc.operation = .snapshot) →
        s.memory.held ≤ s.memory.queueHighWatermark.toNat) := by
  obtain ⟨hwithin, hreports⟩ := run_within hrun
  refine ⟨hreports, hwithin.watermark, fun hfits hproducer hobservers => ?_⟩
  rcases run_covered hfits hrun with hcaught | ⟨pc, hpc, -⟩ | ⟨i, pc, hpc, hreconciles⟩
  · exact hcaught
  · simp [hproducer] at hpc
  · have hplain := hobservers i pc hpc
    simp [hreconciles.operation_eq] at hplain

theorem observer_idle {s t : State C} {as : List Action} {tr : List Event} {i : ℕ}
    (hidle : s.observers i = none) (hnever : ∀ operation, .beginSnapshot i operation ∉ as)
    (hrun : (machine C).run s as = some (t, tr)) : t.observers i = none := by
  refine (machine C).run_preserves_along
    (C := fun _ a => ∀ operation, a ≠ .beginSnapshot i operation)
    (I := fun s => s.observers i = none) ?_ hidle (Machine.along_of_forall ?_) hrun
  · intro s a t es hidle hnot hstep
    cases a with
    | beginPush | beginPop =>
      simp only [machine, step] at hstep
      split at hstep <;> cases hstep
      exact hidle
    | producer | consumer =>
      simp only [machine, step] at hstep
      split at hstep
      · cases hstep
      · cases hstep
        exact hidle
      · obtain ⟨p, -, heq⟩ := Option.map_eq_some_iff.mp hstep
        cases heq
        exact hidle
    | record =>
      cases hstep
      exact hidle
    | beginSnapshot j operation =>
      have hj : i ≠ j := by
        rintro rfl
        exact hnot operation rfl
      simp only [machine, step] at hstep
      split at hstep <;> cases hstep
      simpa [State.setObserver, hj] using hidle
    | observer j spurious =>
      have hj : i ≠ j := by
        rintro rfl
        simp [machine, step, hidle] at hstep
      simp only [machine, step] at hstep
      split at hstep
      · cases hstep
      · cases hstep
        simpa [State.setObserver, hj] using hidle
      · obtain ⟨p, -, heq⟩ := Option.map_eq_some_iff.mp hstep
        cases heq
        simpa [State.setObserver, hj] using hidle
  · intro a ha operation heq
    exact hnever operation (heq ▸ ha)

/-- The second push falls between the depth sample of a reset and its overwrite
of the watermark, which is therefore too low until the reset reconciles it. -/
def staleReset : List Action :=
  let push : List Action := .beginPush {} :: List.replicate 9 (.producer false)
  push ++ .beginSnapshot 0 .snapshotAndReset :: List.replicate 12 (.observer 0 false) ++ push ++
    List.replicate 7 (.observer 0 false)

theorem watermark_reconciled_stale : ∃ s tr,
    (machine tinyCapacity).run (cleared {}) staleReset = some (s, tr) ∧ s.memory.held = 2 ∧
      (reports tr).map (fun r => (r.queueDepth, r.queueHighWatermark)) = [(1, 2)] ∧
      s.memory.queueHighWatermark.toNat = 2 := by
  have hobserved : ((machine tinyCapacity).run (cleared {}) staleReset).map (fun p =>
      (p.1.memory.held, (reports p.2).map (fun r => (r.queueDepth, r.queueHighWatermark)),
        p.1.producer, (p.1.observers 0).isNone)) = some (2, [(1, 2)], none, true) := by decide
  obtain ⟨⟨s, tr⟩, hrun, heq⟩ := Option.map_eq_some_iff.mp hobserved
  simp only [Prod.mk.injEq] at heq
  obtain ⟨hheld, hreports, hproducer, hobserver⟩ := heq
  have hidle : ∀ i, s.observers i = none := by
    intro i
    by_cases hi : i = 0
    · subst hi
      exact Option.isNone_iff_eq_none.mp hobserver
    · refine observer_idle rfl ?_ hrun
      simp [staleReset, hi]
  obtain ⟨-, hbound, hcaught⟩ := watermark_reconciled {} hrun
  have hlow := hcaught (by decide) hproducer (by simp [hidle])
  exact ⟨s, tr, hrun, hheld, hreports, le_antisymm hbound (hheld.symm.le.trans hlow)⟩

/-! ## More slots than a `uint32_t` counts -/

/-- The depth that a `push` raises the watermark to has 32 bits. -/
theorem Memory.push_watermark {m : Memory C} (h : m.held < C.size) (frame : RawCanFrame) :
    (m.push frame).1.queueHighWatermark.toNat =
      max m.queueHighWatermark.toNat ((m.held + 1) % 2 ^ 32) := by
  have hoffer : m.push frame = (((m.fetchAdd .framesReceived 1).storeSlot m.head frame).publish,
      true) := if_neg (not_le.mpr h)
  have hdepth : ((m.head + 1#w - m.tail).setWidth 32).toNat = (m.held + 1) % 2 ^ 32 := by
    rw [BitVec.toNat_setWidth, toNat_succ_sub h, Memory.held]
  rw [hoffer, ← hdepth]
  change (Memory.raiseWatermark _
    ((m.head + 1#w - m.tail).setWidth 32)).queueHighWatermark.toNat = _
  unfold Memory.raiseWatermark
  split_ifs with hlow
  · have hlow : m.queueHighWatermark.toNat < _ := hlow
    exact (max_eq_right hlow.le).symm
  · have hlow : ¬ m.queueHighWatermark.toNat < _ := hlow
    exact (max_eq_left (not_lt.mp hlow)).symm

theorem reachable_pushes (m : Memory C) {n : ℕ} (hroom : n ≤ C.size) (hn : n ≤ 2 ^ 32) :
    ∃ s, (machine C).Reachable (cleared m) s ∧ s.producer = none ∧ (∀ i, s.observers i = none) ∧
      s.memory.held = n ∧ s.memory.queueHighWatermark.toNat = min n (2 ^ 32 - 1) := by
  induction n with
  | zero =>
    refine ⟨cleared m, (machine C).reachable_refl _, rfl, fun _ => rfl, ?_, rfl⟩
    simp [cleared, Memory.clear, Memory.held]
  | succ n ih =>
    obtain ⟨s, hs, hproducer, hobservers, hheld, hwatermark⟩ := ih (by omega) (by omega)
    have hfree : s.memory.held < C.size := by omega
    obtain ⟨as, es, hrun⟩ := reachable_push hproducer {}
    refine ⟨_, hs.run hrun, hproducer, hobservers, ?_, ?_⟩
    · have hstored : (s.memory.storeSlot s.memory.head {}).held < C.size := hfree
      have hgrown := Memory.held_advanceHead _ hstored
      rw [← hheld]
      exact (s.memory.push_free hfree {}).1.held_eq.trans hgrown
    · rw [Memory.push_watermark hfree, hheld, hwatermark]
      omega

/-- After as many pushes as there are slots the watermark is one below the depth. -/
theorem watermark_truncated : ∃ as s tr,
    (machine wideCapacity).run (cleared {}) as = some (s, tr) ∧ s.producer = none ∧
      (∀ i, s.observers i = none) ∧ s.memory.held = 2 ^ 32 ∧
        ¬ s.memory.held ≤ s.memory.queueHighWatermark.toNat := by
  obtain ⟨s, ⟨as, tr, hrun⟩, hproducer, hobservers, hheld, hwatermark⟩ :=
    reachable_pushes ({} : Memory wideCapacity) (n := 2 ^ 32) le_rfl le_rfl
  refine ⟨as, s, tr, hrun, hproducer, hobservers, hheld, ?_⟩
  rw [hheld, hwatermark]
  norm_num

end FrameRing
end CanBus
end VehicleCanCore

import VehicleCanCore.CanBus.FrameRingFifo

/-!
# The two indices of the ring and the coherent reading of their distance

What the producer and the consumer know about the indices does not depend on
how the capacity divides the range of the indices. An observer cannot load both
indices at once; between two equal loads of the tail, fewer than `2 ^ w` pops
apart, no pop has happened, so the distance is exact at the load of the head.
-/

namespace VehicleCanCore
namespace CanBus
namespace FrameRing

open VehicleCanCore.Core Automata CircularWindow

variable {w : ℕ} {C : Capacity w}

namespace Memory

def SameIndices (m m' : Memory C) : Prop := m'.head = m.head ∧ m'.tail = m.tail

theorem SameIndices.held_eq {m m' : Memory C} (h : SameIndices m m') : m'.held = m.held := by
  rw [held, held, h.1, h.2]

theorem SameQueue.sameIndices {m m' : Memory C} (h : SameQueue m m') : SameIndices m m' := h.2

theorem sameIndices_refl (m : Memory C) : SameIndices m m := ⟨rfl, rfl⟩

theorem sameIndices_storeSlot (m : Memory C) (i : BitVec w) (frame : RawCanFrame) :
    SameIndices m (m.storeSlot i frame) := ⟨rfl, rfl⟩

@[simp] theorem head_advanceHead (m : Memory C) : m.advanceHead.head = m.head + 1#w := rfl
@[simp] theorem tail_advanceHead (m : Memory C) : m.advanceHead.tail = m.tail := rfl
@[simp] theorem head_advanceTail (m : Memory C) : m.advanceTail.head = m.head := rfl
@[simp] theorem tail_advanceTail (m : Memory C) : m.advanceTail.tail = m.tail + 1#w := rfl

end Memory

/-! ## What each side knows about the indices -/

/-- The producer's copy of the tail may be stale; it then overestimates what is
held, and still leaves a free slot. -/
def PushPc.Indexed (m : Memory C) : PushPc w → Prop
  | .loadTail _ head => head = m.head
  | .writeSlot _ head tail | .storeHead _ head tail =>
    head = m.head ∧ m.held ≤ (head - tail).toNat ∧ (head - tail).toNat < C.size
  | _ => True

/-- The consumer's copy of the tail is exact, and what it has found stays. -/
def PopPc.Indexed (m : Memory C) : PopPc w → Prop
  | .loadHead tail => tail = m.tail
  | .readSlot tail | .storeTail tail _ => tail = m.tail ∧ 0 < m.held
  | _ => True

theorem PushPc.Indexed.mono {m m' : Memory C} {pc : PushPc w} (hhead : m'.head = m.head)
    (hheld : m'.held ≤ m.held) (h : pc.Indexed m) : pc.Indexed m' := by
  cases pc with
  | loadTail frame head => exact h.trans hhead.symm
  | writeSlot | storeHead => exact ⟨h.1.trans hhead.symm, hheld.trans h.2.1, h.2.2⟩
  | _ => trivial

theorem PopPc.Indexed.mono {m m' : Memory C} {pc : PopPc w} (htail : m'.tail = m.tail)
    (hheld : m.held ≤ m'.held) (h : pc.Indexed m) : pc.Indexed m' := by
  cases pc with
  | loadHead tail => exact h.trans htail.symm
  | readSlot | storeTail => exact ⟨h.1.trans htail.symm, h.2.trans_le hheld⟩
  | _ => trivial

theorem PushPc.Indexed.advanceTail {m : Memory C} {pc : PushPc w} (h : pc.Indexed m)
    (hpos : 0 < m.held) : pc.Indexed m.advanceTail := by
  have hshrunk := m.held_advanceTail hpos
  apply h.mono
  · rfl
  · omega

theorem PopPc.Indexed.advanceHead {m : Memory C} {pc : PopPc w} (h : pc.Indexed m)
    (hfree : m.held < C.size) : pc.Indexed m.advanceHead := by
  have hgrown := m.held_advanceHead hfree
  apply h.mono
  · rfl
  · omega

@[simp] theorem PushPc.indexed_afterWatermark (m : Memory C) (depth watermark : BitVec 32) :
    (PushPc.afterWatermark depth watermark : PushPc w).Indexed m := by
  unfold PushPc.afterWatermark
  split_ifs <;> trivial

theorem pushStep_indices {m m' : Memory C} {spurious : Bool} {pc pc' : PushPc w}
    {es : List Event} (hpc : pc.Indexed m) (h : pushStep m spurious pc = some (m', pc', es)) :
    (m.SameIndices m' ∧ pc'.Indexed m' ∧ published es = []) ∨
      ∃ frame tail, pc = .storeHead frame m.head tail ∧ m.held ≤ (m.head - tail).toNat ∧
        (m.head - tail).toNat < C.size ∧ m' = m.advanceHead ∧
        pc' = .loadWatermark ((m.head + 1#w - tail).setWidth 32) ∧ es = [.published frame] := by
  cases pc with
  | loadTail frame head =>
    obtain rfl : head = m.head := hpc
    left
    simp only [pushStep] at h
    split_ifs at h with hfull <;> cases h
    · exact ⟨m.sameIndices_refl, trivial, rfl⟩
    · exact ⟨m.sameIndices_refl, ⟨rfl, le_rfl, not_le.mp hfull⟩, rfl⟩
  | writeSlot frame head tail =>
    cases h
    exact .inl ⟨m.sameIndices_storeSlot head frame, hpc, rfl⟩
  | storeHead frame head tail =>
    obtain ⟨rfl, hheld, hfree⟩ := hpc
    cases h
    exact .inr ⟨frame, tail, rfl, hheld, hfree, rfl, rfl, rfl⟩
  | raiseWatermark depth watermark =>
    left
    simp only [pushStep] at h
    split_ifs at h <;> cases h
    · exact ⟨(m.sameQueue_watermark depth).sameIndices, trivial, rfl⟩
    · exact ⟨m.sameIndices_refl, by simp, rfl⟩
  | loadWatermark depth =>
    cases h
    exact .inl ⟨m.sameIndices_refl, by simp, rfl⟩
  | loadHead frame =>
    cases h
    exact .inl ⟨m.sameIndices_refl, rfl, rfl⟩
  | countReceived frame | countDropped | countOverflow | countQueued =>
    cases h
    exact .inl ⟨(m.sameQueue_fetchAdd _ _).sameIndices, trivial, rfl⟩
  | done accepted => cases h

theorem popStep_indices {m m' : Memory C} {pc pc' : PopPc w} {es : List Event}
    (hpc : pc.Indexed m) (h : popStep m pc = some (m', pc', es)) :
    (m.SameIndices m' ∧ pc'.Indexed m' ∧ delivered es = []) ∨
      ∃ frame, pc = .storeTail m.tail frame ∧ 0 < m.held ∧ m' = m.advanceTail ∧
        pc' = .countDelivered frame ∧ es = [.delivered frame] := by
  cases pc with
  | loadTail =>
    cases h
    exact .inl ⟨m.sameIndices_refl, rfl, rfl⟩
  | loadHead tail =>
    obtain rfl : tail = m.tail := hpc
    left
    simp only [popStep] at h
    split_ifs at h with hempty <;> cases h
    · exact ⟨m.sameIndices_refl, trivial, rfl⟩
    · refine ⟨m.sameIndices_refl, ⟨rfl, Nat.pos_of_ne_zero fun hzero => hempty ?_⟩, rfl⟩
      simpa [hzero] using m.head_eq.symm
  | readSlot tail =>
    cases h
    exact .inl ⟨m.sameIndices_refl, hpc, rfl⟩
  | storeTail tail frame =>
    obtain ⟨rfl, hpos⟩ := hpc
    cases h
    exact .inr ⟨frame, rfl, hpos, rfl, rfl, rfl⟩
  | countDelivered frame =>
    cases h
    exact .inl ⟨(m.sameQueue_fetchAdd _ _).sameIndices, trivial, rfl⟩
  | done frame => cases h

/-- At most a full ring is held and both sides' copies of the indices are usable. -/
structure Indexed (s : State C) : Prop where
  bounded : s.memory.held ≤ C.size
  producer : ∀ pc, s.producer = some pc → pc.Indexed s.memory
  consumer : ∀ pc, s.consumer = some pc → pc.Indexed s.memory

theorem indexed_cleared (m : Memory C) : Indexed (cleared m) := by
  refine ⟨?_, by simp [cleared], by simp [cleared]⟩
  simp [cleared, Memory.clear, Memory.held]

theorem Indexed.sameIndices {s t : State C} (h : Indexed s)
    (hsame : s.memory.SameIndices t.memory) (hproducer : t.producer = s.producer)
    (hconsumer : t.consumer = s.consumer) : Indexed t where
  bounded := hsame.held_eq ▸ h.bounded
  producer pc hpc := (h.producer pc (hproducer ▸ hpc)).mono hsame.1 hsame.held_eq.le
  consumer pc hpc := (h.consumer pc (hconsumer ▸ hpc)).mono hsame.2 hsame.held_eq.ge

theorem indexed_step {s t : State C} {a : Action} {es : List Event} (h : Indexed s)
    (hstep : step s a = some (t, es)) : Indexed t := by
  cases step_cases hstep with
  | beginPush => exact ⟨h.bounded, by rintro _ ⟨⟩; trivial, h.consumer⟩
  | push active hpush =>
    rcases pushStep_indices (h.producer _ active) hpush with
      ⟨hsame, hpc, -⟩ | ⟨frame, tail, rfl, hheld, hfree, rfl, rfl, rfl⟩
    · refine ⟨hsame.held_eq ▸ h.bounded, by rintro _ ⟨⟩; exact hpc, ?_⟩
      intro qc hqc
      exact (h.consumer qc hqc).mono hsame.2 hsame.held_eq.ge
    · have hroom := hheld.trans_lt hfree
      have hgrown := s.memory.held_advanceHead hroom
      refine ⟨?_, by rintro _ ⟨⟩; trivial, fun qc hqc => (h.consumer qc hqc).advanceHead hroom⟩
      change s.memory.advanceHead.held ≤ C.size
      omega
  | returnPush => exact ⟨h.bounded, by simp, h.consumer⟩
  | beginPop => exact ⟨h.bounded, h.producer, by rintro _ ⟨⟩; trivial⟩
  | pop active hpop =>
    rcases popStep_indices (h.consumer _ active) hpop with
      ⟨hsame, hpc, -⟩ | ⟨frame, rfl, hpos, rfl, rfl, rfl⟩
    · refine ⟨hsame.held_eq ▸ h.bounded, ?_, by rintro _ ⟨⟩; exact hpc⟩
      intro qc hqc
      exact (h.producer qc hqc).mono hsame.1 hsame.held_eq.le
    · have hshrunk := s.memory.held_advanceTail hpos
      have hbounded := h.bounded
      refine ⟨?_, fun qc hqc => (h.producer qc hqc).advanceTail hpos, by rintro _ ⟨⟩; trivial⟩
      change s.memory.advanceTail.held ≤ C.size
      omega
  | returnPop => exact ⟨h.bounded, h.producer, by simp⟩
  | record => exact h.sameIndices ⟨rfl, rfl⟩ rfl rfl
  | beginSnapshot | returnSnapshot => exact h.sameIndices ⟨rfl, rfl⟩ rfl rfl
  | snapshot active hsnap =>
    exact h.sameIndices (snapshotStep_sameQueue hsnap).1.sameIndices rfl rfl

theorem run_indexed {m : Memory C} {as : List Action} {s : State C} {tr : List Event}
    (hrun : (machine C).run (cleared m) as = some (s, tr)) : Indexed s :=
  (machine C).run_preserves (fun _ _ _ _ h hstep => indexed_step h hstep) (indexed_cleared m) hrun

/-! ## A coherent reading among pushes and pops -/

theorem depthStep_moved {m : Memory C} {tailBefore : BitVec w} (h : tailBefore ≠ m.tail)
    (head : BitVec w) : depthStep m (.tailAfter tailBefore head) = .inl .tailBefore := by
  simp [depthStep, h]

theorem depthStep_unmoved {m : Memory C} {head : BitVec w}
    (h : (head - m.tail).toNat ≤ C.size) :
    depthStep m (.tailAfter m.tail head) = .inr (BitVec.ofNat 32 (head - m.tail).toNat) := by
  have hreturn : depthStep m (.tailAfter m.tail head) = .inr ((head - m.tail).setWidth 32) := by
    simp only [depthStep, ne_eq, not_true_eq_false, if_false, if_pos h]
  rw [hreturn]
  congr 1
  apply BitVec.eq_of_toNat_eq
  rw [BitVec.toNat_setWidth, BitVec.toNat_ofNat]

/-- A call of `coherent_depth` or the value it has returned, while pushes and
pops move the indices. `pops` counts the pops since the first load of the
current iteration, `depthAtHead` is what the ring held at the last load of the
head; neither is seen by the call. -/
structure Reading (C : Capacity w) where
  memory : Memory C
  reader : DepthPc w ⊕ BitVec 32 := .inl .tailBefore
  pops : ℕ := 0
  depthAtHead : ℕ := 0

inductive ReadingAction
  | load
  | push (frame : RawCanFrame)
  | pop
  deriving DecidableEq

namespace Reading

/-- Between the first and the last load of an iteration. -/
def iterating (s : Reading C) : Bool :=
  match s.reader with
  | .inl (.head _) | .inl (.tailAfter _ _) => true
  | _ => false

def load (s : Reading C) (pc : DepthPc w) : Reading C where
  memory := s.memory
  reader := depthStep s.memory pc
  pops := if pc = .tailBefore then 0 else s.pops
  depthAtHead := match pc with
    | .head _ => s.memory.held
    | _ => s.depthAtHead

/-- Pushes and pops keep what is held between nothing and a full ring. -/
def step (s : Reading C) : ReadingAction → Option (Reading C × List Event)
  | .load =>
    match s.reader with
    | .inl pc => some (s.load pc, [])
    | .inr _ => none
  | .push frame =>
    if s.memory.held < C.size then
      some ({ s with memory := (s.memory.storeSlot s.memory.head frame).advanceHead }, [])
    else none
  | .pop =>
    if 0 < s.memory.held then
      some ({ s with memory := s.memory.advanceTail, pops := s.pops + 1 }, [])
    else none

def machine (C : Capacity w) : Machine (Reading C) ReadingAction Event := ⟨step⟩

/-- Fewer than `2 ^ w` pops fall inside one iteration. -/
def FewPops (s : Reading C) (a : ReadingAction) : Prop :=
  a = .pop → s.iterating = true → s.pops + 1 < 2 ^ w

instance (s : Reading C) (a : ReadingAction) : Decidable (s.FewPops a) :=
  inferInstanceAs (Decidable (a = .pop → s.iterating = true → s.pops + 1 < 2 ^ w))

/-- The tail has moved by the pops counted, and the head that was loaded is as
far from the tail of that moment as the ring then held. -/
structure Sound (s : Reading C) : Prop where
  bounded : s.memory.held ≤ C.size
  head : ∀ tailBefore, s.reader = .inl (.head tailBefore) →
    s.memory.tail = tailBefore + BitVec.ofNat w s.pops ∧ s.pops < 2 ^ w
  tailAfter : ∀ tailBefore head, s.reader = .inl (.tailAfter tailBefore head) →
    s.memory.tail = tailBefore + BitVec.ofNat w s.pops ∧ s.pops < 2 ^ w ∧
      s.depthAtHead ≤ C.size ∧
      ∃ earlier ≤ s.pops, head = tailBefore + BitVec.ofNat w (earlier + s.depthAtHead)
  returned : ∀ depth, s.reader = .inr depth →
    depth = BitVec.ofNat 32 s.depthAtHead ∧ s.depthAtHead ≤ C.size

theorem eq_of_offset_eq {tail : BitVec w} {n : ℕ} (h : tail = tail + BitVec.ofNat w n)
    (hn : n < 2 ^ w) : n = 0 := by
  have hdiff := congrArg (fun i => (i - tail).toNat) h
  rw [toNat_offset_sub tail hn] at hdiff
  simpa using hdiff.symm

/-- Two equal loads of the tail enclose no pop, so the head that was loaded is
at the depth of that moment. -/
theorem Sound.distance {s : Reading C} (h : s.Sound) {tailBefore head : BitVec w}
    (hreader : s.reader = .inl (.tailAfter tailBefore head)) (heq : tailBefore = s.memory.tail) :
    (head - s.memory.tail).toNat = s.depthAtHead ∧ s.depthAtHead ≤ C.size := by
  obtain ⟨htail, hfew, hbound, earlier, hle, rfl⟩ := h.tailAfter tailBefore head hreader
  subst heq
  have hpops := eq_of_offset_eq htail hfew
  obtain rfl : earlier = 0 := by omega
  have hfits := C.fits
  rw [Nat.zero_add, toNat_offset_sub _ (by omega)]
  exact ⟨rfl, hbound⟩

theorem sound_load {s : Reading C} {pc : DepthPc w} (h : s.Sound) (hreader : s.reader = .inl pc) :
    (s.load pc).Sound := by
  cases pc with
  | tailBefore =>
    refine ⟨h.bounded, ?_, by simp [load, depthStep], by simp [load, depthStep]⟩
    rintro tailBefore ⟨⟩
    exact ⟨by simp [load], Nat.two_pow_pos w⟩
  | head tailBefore =>
    refine ⟨h.bounded, by simp [load, depthStep], ?_, by simp [load, depthStep]⟩
    rintro _ _ ⟨⟩
    obtain ⟨htail, hfew⟩ := h.head tailBefore hreader
    refine ⟨htail, hfew, h.bounded, s.pops, le_rfl, ?_⟩
    rw [s.memory.head_eq, htail, BitVec.ofNat_add, BitVec.add_assoc]
    rfl
  | tailAfter tailBefore head =>
    by_cases heq : tailBefore = s.memory.tail
    · obtain ⟨hdistance, hbound⟩ := h.distance hreader heq
      subst heq
      have hreturns := depthStep_unmoved (hdistance ▸ hbound)
      rw [hdistance] at hreturns
      refine ⟨h.bounded, by simp [load, hreturns], by simp [load, hreturns], ?_⟩
      intro depth hdepth
      simp only [load, hreturns, Sum.inr.injEq] at hdepth
      exact ⟨hdepth.symm, hbound⟩
    · have hretries := depthStep_moved heq head
      exact ⟨h.bounded, by simp [load, hretries], by simp [load, hretries],
        by simp [load, hretries]⟩

theorem sound_step {s t : Reading C} {a : ReadingAction} {es : List Event} (h : s.Sound)
    (hfew : s.FewPops a) (hstep : s.step a = some (t, es)) : t.Sound := by
  cases a with
  | load =>
    simp only [step] at hstep
    split at hstep <;> cases hstep
    exact sound_load h ‹_›
  | push frame =>
    simp only [step] at hstep
    split_ifs at hstep with hfree
    cases hstep
    have hgrown := s.memory.held_advanceHead hfree
    refine ⟨?_, h.head, h.tailAfter, h.returned⟩
    change s.memory.advanceHead.held ≤ C.size
    omega
  | pop =>
    simp only [step] at hstep
    split_ifs at hstep with hpos
    cases hstep
    have hshrunk := s.memory.held_advanceTail hpos
    have hbounded := h.bounded
    have hmoved : ∀ {tailBefore : BitVec w}, s.memory.tail = tailBefore + BitVec.ofNat w s.pops →
        s.memory.advanceTail.tail = tailBefore + BitVec.ofNat w (s.pops + 1) := by
      intro tailBefore htail
      rw [Memory.tail_advanceTail, htail, offset_succ]
    refine ⟨?_, ?_, ?_, h.returned⟩
    · change s.memory.advanceTail.held ≤ C.size
      omega
    · intro tailBefore hreader
      change s.reader = _ at hreader
      exact ⟨hmoved (h.head _ hreader).1, hfew rfl (by simp [iterating, hreader])⟩
    · intro tailBefore head hreader
      change s.reader = _ at hreader
      obtain ⟨htail, -, hbound, earlier, hle, hhead⟩ := h.tailAfter _ _ hreader
      have hfew' := hfew rfl (by simp [iterating, hreader])
      exact ⟨hmoved htail, hfew', hbound, earlier, Nat.le_succ_of_le hle, hhead⟩

end Reading

/-- Whatever pushes and pops fall between the loads, the value returned is the
depth at the last load of the head, converted to the return type; and an
iteration during which the tail does not move returns. -/
theorem coherent_depth_linearizable {m : Memory C} (hheld : m.held ≤ C.size)
    {as : List ReadingAction} {s : Reading C} {es : List Event}
    (hfew : (Reading.machine C).Along Reading.FewPops { memory := m } as)
    (hrun : (Reading.machine C).run { memory := m } as = some (s, es)) :
    (∀ depth, s.reader = .inr depth →
      depth = BitVec.ofNat 32 s.depthAtHead ∧ s.depthAtHead ≤ C.size ∧ depth.toNat ≤ C.size ∧
        (C.size < 2 ^ 32 → depth.toNat = s.depthAtHead)) ∧
    ∀ tailBefore head, s.reader = .inl (.tailAfter tailBefore head) →
      (s.pops = 0 ↔ tailBefore = s.memory.tail) ∧
        (s.pops = 0 → depthStep s.memory (.tailAfter tailBefore head) =
          .inr (BitVec.ofNat 32 s.depthAtHead)) := by
  have hsound : s.Sound := by
    refine (Reading.machine C).run_preserves_along
      (fun _ _ _ _ h hfew hstep => Reading.sound_step h hfew hstep) ?_ hfew hrun
    exact ⟨hheld, by simp, by simp, by simp⟩
  constructor
  · intro depth hreader
    obtain ⟨hdepth, hbound⟩ := hsound.returned depth hreader
    have hmod : depth.toNat = s.depthAtHead % 2 ^ 32 := by rw [hdepth, BitVec.toNat_ofNat]
    refine ⟨hdepth, hbound, ?_, fun hfits => ?_⟩
    · rw [hmod]
      exact (Nat.mod_le _ _).trans hbound
    · rw [hmod, Nat.mod_eq_of_lt (by omega)]
  · intro tailBefore head hreader
    obtain ⟨htail, hlt, -⟩ := hsound.tailAfter tailBefore head hreader
    have hiff : s.pops = 0 ↔ tailBefore = s.memory.tail := by
      constructor
      · intro hzero
        simpa [hzero] using htail.symm
      · rintro rfl
        exact Reading.eq_of_offset_eq htail hlt
    refine ⟨hiff, fun hzero => ?_⟩
    obtain rfl := hiff.mp hzero
    obtain ⟨hdistance, hbound⟩ := hsound.distance hreader rfl
    rw [depthStep_unmoved (hdistance ▸ hbound), hdistance]

/-- A pop between the two loads of the tail makes the first iteration fail; the
second reads the depth one although a push follows its load of the head. -/
theorem coherent_depth_linearizable_retried : ∃ s es,
    (Reading.machine tinyCapacity).run { memory := {} }
      [.push {}, .load, .push {}, .load, .pop, .load, .load, .load, .push {}, .load] =
        some (s, es) ∧
      s.reader = .inr 1#32 ∧ s.memory.held = 2 ∧ s.depthAtHead = 1 := by
  have hobserved : ((Reading.machine tinyCapacity).run { memory := {} }
      [.push {}, .load, .push {}, .load, .pop, .load, .load, .load, .push {}, .load]).map
        (fun p => (p.1.reader, p.1.memory.held)) = some (.inr 1#32, 2) := by decide
  obtain ⟨⟨s, es⟩, hrun, heq⟩ := Option.map_eq_some_iff.mp hobserved
  simp only [Prod.mk.injEq] at heq
  have hdepth := (coherent_depth_linearizable (by decide) (by decide) hrun).1 _ heq.1
  exact ⟨s, es, hrun, heq.1, heq.2, (hdepth.2.2.2 (by decide)).symm⟩

/-- More slots than a `uint32_t` counts. -/
def wideCapacity : Capacity 64 := ⟨2 ^ 32, by norm_num, by norm_num⟩

/-- A full ring of that size reads as an empty one. -/
theorem coherent_depth_truncated : ∃ s es,
    ({ head := 0x100000000#64 } : Memory wideCapacity).held ≤ wideCapacity.size ∧
    (Reading.machine wideCapacity).Along Reading.FewPops { memory := { head := 0x100000000#64 } }
      [.load, .load, .load] ∧
    (Reading.machine wideCapacity).run { memory := { head := 0x100000000#64 } }
      [.load, .load, .load] = some (s, es) ∧
      s.reader = .inr 0#32 ∧ s.depthAtHead = 2 ^ 32 ∧ s.memory.held = 2 ^ 32 := by
  refine ⟨_, _, ?_, ?_, rfl, ?_, ?_, ?_⟩ <;> decide

end FrameRing
end CanBus
end VehicleCanCore

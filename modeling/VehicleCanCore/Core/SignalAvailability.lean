import VehicleCanCore.Core.Signal

/-!
# When a signal is available

A stale mark left by an earlier `refresh` stays justified as long as the clock
of the callers does not run backwards, so that the sticky status and the pure
evaluation agree. An invalidation is not remembered beyond the status: the only
watermark is that of the last accepted observation, and an observation between
the two timestamps makes the signal valid again.
-/

namespace VehicleCanCore
namespace Core
namespace Signal

variable {α : Type*}

/-! ## The two freshness evaluators -/

/-- At `now` the last accepted observation is older than the timeout. -/
def expired (s : Signal α) (timeout now : UInt64) : Prop :=
  s.lastUpdateUs ≤ now ∧ timeout < now - s.lastUpdateUs

theorem expired_mono {s : Signal α} {timeout now now' : UInt64} (h : s.expired timeout now)
    (hle : now ≤ now') : s.expired timeout now' := by
  obtain ⟨hlast, hage⟩ := h
  refine ⟨UInt64.le_trans hlast hle, ?_⟩
  rw [UInt64.lt_iff_toNat_lt, UInt64.toNat_sub_of_le _ _ hlast] at hage
  rw [UInt64.lt_iff_toNat_lt, UInt64.toNat_sub_of_le _ _ (UInt64.le_trans hlast hle)]
  have := UInt64.le_iff_toNat_le.mp hle
  omega

/-- What holds of a signal at every time that is not before any refresh of it. -/
structure Justified (timeout now : UInt64) (s : Signal α) : Prop where
  configured : s.freshnessTimeoutUs = some timeout
  empty : s.hasValue = false → s.status = .unknown
  stale : s.status = .stale → s.expired timeout now

theorem refresh_configured {s : Signal α} {timeout : UInt64}
    (h : s.freshnessTimeoutUs = some timeout) (now : UInt64) :
    (s.status = .valid ∧ s.expired timeout now ∧ s.refresh now = { s with status := .stale }) ∨
      ((s.status = .valid → ¬ s.expired timeout now) ∧ s.refresh now = s) := by
  unfold refresh
  by_cases hstatus : s.status = .valid
  · by_cases hlast : now < s.lastUpdateUs
    · refine .inr ⟨fun _ hexpired => ?_, by simp [hlast]⟩
      exact UInt64.not_lt.mpr hexpired.1 hlast
    · by_cases hage : timeout < now - s.lastUpdateUs
      · exact .inl ⟨hstatus, ⟨UInt64.not_lt.mp hlast, hage⟩, by simp [hstatus, hlast, h, hage]⟩
      · exact .inr ⟨fun _ hexpired => hage hexpired.2, by simp [hstatus, hlast, h, hage]⟩
  · exact .inr ⟨fun hvalid => absurd hvalid hstatus, by simp [hstatus]⟩

theorem statusAt_configured {s : Signal α} {timeout : UInt64}
    (h : s.freshnessTimeoutUs = some timeout) (hvalue : s.hasValue = true)
    (hstatus : s.status ≠ .unknown) (now : UInt64) :
    (s.expired timeout now ∧ s.statusAt now = .stale) ∨
      (¬ s.expired timeout now ∧ s.statusAt now = .fresh) := by
  unfold statusAt expired
  by_cases hlast : s.lastUpdateUs ≤ now
  · by_cases hage : now - s.lastUpdateUs ≤ timeout
    · exact .inr ⟨fun hexpired => UInt64.not_lt.mpr hage hexpired.2,
        by simp [hvalue, hstatus, h, hlast, hage]⟩
    · exact .inl ⟨⟨hlast, UInt64.not_le.mp hage⟩, by simp [hvalue, hstatus, h, hlast, hage]⟩
  · exact .inr ⟨fun hexpired => hlast hexpired.1, by simp [hvalue, hstatus, h, hlast]⟩

theorem Justified.after [BEq α] {s : Signal α} {timeout now : UInt64} {c : Call α}
    (h : s.Justified timeout now) (hfixed : ∀ t, c = .setFreshnessTimeout t → t = some timeout)
    (hrefresh : ∀ r, c = .refresh r → r ≤ now) : (s.after c).Justified timeout now := by
  cases c with
  | updateStatus v t =>
    simp only [Signal.after]
    by_cases hnewer : s.Newer t
    · rw [updateStatus_newer hnewer]
      exact ⟨h.configured, by simp, by simp⟩
    · rwa [updateStatus_late hnewer]
  | invalidate t =>
    simp only [Signal.after, invalidate]
    split_ifs
    · exact h
    · exact ⟨h.configured, fun _ => rfl, by simp⟩
  | refresh r =>
    simp only [Signal.after]
    rcases refresh_configured h.configured r with ⟨hvalid, hexpired, hresult⟩ | ⟨-, hresult⟩
    · rw [hresult]
      refine ⟨h.configured, fun hempty => ?_, fun _ => expired_mono hexpired (hrefresh r rfl)⟩
      rw [h.empty hempty] at hvalid
      cases hvalid
    · rwa [hresult]
  | setFreshnessTimeout t => exact ⟨hfixed t rfl, h.empty, h.stale⟩
  | statusAt | snapshot => exact h

theorem justified_run [BEq α] [Inhabited α] (unit : SignalUnit) {timeout now : UInt64}
    {calls : List (Call α)}
    (hfixed : ∀ t, .setFreshnessTimeout t ∈ calls → t = some timeout)
    (hmono : ∀ r, .refresh r ∈ calls → r ≤ now) :
    ((make unit (some timeout)).run calls).Justified timeout now := by
  induction calls using List.reverseRecOn with
  | nil => exact ⟨rfl, fun _ => rfl, by simp [make]⟩
  | append_singleton cs c ih =>
    rw [run_append]
    apply (ih _ _).after
    · intro t ht
      exact hfixed t (by simp [ht])
    · intro r hr
      exact hmono r (by simp [hr])
    · intro t ht
      exact hfixed t (by simp [ht])
    · intro r hr
      exact hmono r (by simp [hr])

/-- Right after a refresh that is not earlier than any refresh before it, the
mutating and the pure evaluator agree. -/
theorem refresh_agrees_statusAt [BEq α] [Inhabited α] (unit : SignalUnit) (timeout now : UInt64)
    (validation : ValidationStatus) (calls : List (Call α)) (s : Signal α)
    (hfixed : ∀ t, .setFreshnessTimeout t ∈ calls → t = some timeout)
    (hmono : ∀ r, .refresh r ∈ calls → r ≤ now)
    (hs : s = (make unit (some timeout)).run (calls ++ [.refresh now])) :
    (s.isValid = true ↔ s.statusAt now = .fresh) ∧
      (s.isStale = true ↔ s.statusAt now = .stale) ∧
      (s.isUnknown = true ↔ s.statusAt now = .noData ∨ s.statusAt now = .unavailable) ∧
      ((s.snapshot now validation).value.isSome = true ↔
        (s.snapshot now validation).availability ≠ .noData) ∧
      (s.snapshot now validation).availability = s.statusAt now ∧
      ∀ v, (s.snapshot now validation).value = some v → v = s.value := by
  rw [run_append] at hs
  have hbefore := justified_run unit hfixed hmono
  generalize (make unit (some timeout)).run calls = u at hs hbefore
  have hfresh : s.status = .valid → ¬ s.expired timeout now := by
    intro hvalid
    simp only [hs, run_cons, run_nil, Signal.after] at hvalid ⊢
    rcases refresh_configured hbefore.configured now with ⟨-, -, hresult⟩ | ⟨hfresh, hresult⟩
    · simp [hresult] at hvalid
    · rw [hresult] at hvalid ⊢
      exact hfresh hvalid
  have hafter : s.Justified timeout now := by
    rw [hs]
    apply hbefore.after (c := .refresh now)
    · intro t ht
      cases ht
    · intro r hr
      cases hr
      exact UInt64.le_refl _
  have hstored : ∀ v, (s.snapshot now validation).value = some v → v = s.value := by
    intro v hv
    simp only [snapshot] at hv
    split_ifs at hv
    exact (Option.some.inj hv).symm
  cases hvalue : s.hasValue with
  | false =>
    have hunknown := hafter.empty hvalue
    refine ⟨?_, ?_, ?_, ?_, rfl, hstored⟩ <;>
      simp [isValid, isStale, isUnknown, statusAt, snapshot, hvalue, hunknown]
  | true =>
    cases hstatus : s.status with
    | unknown =>
      refine ⟨?_, ?_, ?_, ?_, rfl, hstored⟩ <;>
        simp [isValid, isStale, isUnknown, statusAt, snapshot, hvalue, hstatus]
    | valid =>
      rcases statusAt_configured hafter.configured hvalue (by simp [hstatus]) now with
        ⟨hexpired, -⟩ | ⟨-, havailable⟩
      · exact absurd hexpired (hfresh hstatus)
      · refine ⟨?_, ?_, ?_, ?_, rfl, hstored⟩ <;>
          simp [isValid, isStale, isUnknown, snapshot, hvalue, hstatus, havailable]
    | stale =>
      rcases statusAt_configured hafter.configured hvalue (by simp [hstatus]) now with
        ⟨-, havailable⟩ | ⟨hnot, -⟩
      · refine ⟨?_, ?_, ?_, ?_, rfl, hstored⟩ <;>
          simp [isValid, isStale, isUnknown, snapshot, hvalue, hstatus, havailable]
      · exact absurd (hafter.stale hstatus) hnot

/-- A future-dated update, a boundary age and a rejected late frame. -/
theorem refresh_agrees_statusAt_late : ∃ s : Signal UInt16,
    s = (make .none (some 10)).run
      ([.updateStatus 1 100, .refresh 50, .refresh 110, .updateStatus 2 90, .refresh 111] ++
        [.refresh 111]) ∧
      s.isStale = true ∧ s.statusAt 111 = .stale ∧
      s.snapshot 111 .confirmed = ⟨some 1, .stale, .confirmed⟩ := by
  obtain ⟨-, hstale, -, hvalue, havailability, hstored⟩ := refresh_agrees_statusAt (α := UInt16)
    .none 10 111 .confirmed
    [.updateStatus 1 100, .refresh 50, .refresh 110, .updateStatus 2 90, .refresh 111] _
    (by simp) (by simp) rfl
  have hstatus := hstale.mp (by decide)
  rw [hstatus] at havailability
  obtain ⟨v, hv⟩ := Option.isSome_iff_exists.mp (hvalue.mpr (by rw [havailability]; decide))
  obtain rfl : v = 1 := (hstored v hv).trans (by decide)
  refine ⟨_, rfl, by decide, hstatus, ?_⟩
  rw [Reading.mk.injEq]
  exact ⟨hv, havailability, rfl⟩

/-! ## Invalidation -/

/-- An observation that is strictly newer than `t`. -/
def Call.newerThan (t : UInt64) : Call α → Bool
  | updateStatus _ timestamp => t < timestamp
  | _ => false

/-- One of the calls is an accepted update newer than `t`. -/
def Recovered [BEq α] (t : UInt64) (s : Signal α) (calls : List (Call α)) : Prop :=
  ∃ before v timestamp after, calls = before ++ .updateStatus v timestamp :: after ∧
    t < timestamp ∧ ((s.run before).updateStatus v timestamp).2 = .updated

/-- Until an update newer than `t` is accepted, the signal stays unknown. -/
def StaysUnknown [BEq α] (t : UInt64) (s : Signal α) (later : List (Call α)) : Prop :=
  ∀ calls, calls <+: later → ¬ s.Recovered t calls →
    (s.run calls).isUnknown = true ∧
      ∀ now, (s.run calls).statusAt now = .noData ∨ (s.run calls).statusAt now = .unavailable

/-- Every observation that comes before the first one newer than `t` is not
newer than the last accepted observation. -/
def OnlyLate (t : UInt64) (s : Signal α) (later : List (Call α)) : Prop :=
  ∀ v timestamp, .updateStatus v timestamp ∈ later.takeWhile (fun c => !c.newerThan t) →
    s.hasValue = true ∧ timestamp ≤ s.lastUpdateUs

theorem not_recovered_nil [BEq α] (t : UInt64) (s : Signal α) : ¬ s.Recovered t [] := by
  rintro ⟨before, v, timestamp, after, heq, -⟩
  simp at heq

theorem recovered_cons [BEq α] {t : UInt64} {s : Signal α} {c : Call α} {cs : List (Call α)} :
    s.Recovered t (c :: cs) ↔ s.Recovered t [c] ∨ (s.after c).Recovered t cs := by
  constructor
  · rintro ⟨before, v, timestamp, after, heq, hnewer, hresult⟩
    cases before with
    | nil =>
      obtain ⟨rfl, rfl⟩ := List.cons.inj heq
      exact .inl ⟨[], v, timestamp, [], rfl, hnewer, hresult⟩
    | cons b before =>
      obtain ⟨rfl, rfl⟩ := List.cons.inj heq
      exact .inr ⟨before, v, timestamp, after, rfl, hnewer, hresult⟩
  · rintro (⟨before, v, timestamp, after, heq, hnewer, hresult⟩ |
      ⟨before, v, timestamp, after, rfl, hnewer, hresult⟩)
    · cases before with
      | nil =>
        cases heq
        exact ⟨[], v, timestamp, cs, rfl, hnewer, hresult⟩
      | cons b before => simp at heq
    · exact ⟨c :: before, v, timestamp, after, rfl, hnewer, hresult⟩

/-- Only a newer observation can recover a signal in one call. -/
theorem Recovered.newerThan [BEq α] {t : UInt64} {s : Signal α} {c : Call α}
    (h : s.Recovered t [c]) : c.newerThan t = true := by
  obtain ⟨before, v, timestamp, after, heq, hnewer, -⟩ := h
  have hmem : Call.updateStatus v timestamp ∈ [c] := by simp [heq]
  rw [← List.mem_singleton.mp hmem]
  exact decide_eq_true hnewer

theorem isUnknown_statusAt {s : Signal α} (h : s.status = .unknown) :
    s.isUnknown = true ∧ ∀ now, s.statusAt now = .noData ∨ s.statusAt now = .unavailable := by
  refine ⟨by simp [isUnknown, h], fun now => ?_⟩
  cases hvalue : s.hasValue <;> simp [statusAt, hvalue, h]

theorem staysUnknown_cons [BEq α] {t : UInt64} {s : Signal α} {c : Call α} {cs : List (Call α)}
    (hunknown : s.status = .unknown) :
    s.StaysUnknown t (c :: cs) ↔ (¬ s.Recovered t [c] → (s.after c).StaysUnknown t cs) := by
  constructor
  · intro h hc calls hcalls hrecovered
    apply h (c :: calls) (List.cons_prefix_cons.mpr ⟨rfl, hcalls⟩)
    rw [recovered_cons, not_or]
    exact ⟨hc, hrecovered⟩
  · intro h calls hcalls hrecovered
    cases calls with
    | nil => exact isUnknown_statusAt hunknown
    | cons b calls =>
      obtain ⟨rfl, hrest⟩ := List.cons_prefix_cons.mp hcalls
      rw [recovered_cons, not_or] at hrecovered
      exact h hrecovered.1 calls hrest hrecovered.2

theorem onlyLate_of_newerThan {t : UInt64} {c : Call α} (hc : c.newerThan t = true)
    (s : Signal α) (cs : List (Call α)) : s.OnlyLate t (c :: cs) := by
  simp [OnlyLate, hc]

theorem onlyLate_cons {t : UInt64} {s : Signal α} {c : Call α} {cs : List (Call α)}
    (hc : c.newerThan t = false) :
    s.OnlyLate t (c :: cs) ↔
      (∀ o, c.observation? = some o → ¬ s.Newer o.1) ∧ s.OnlyLate t cs := by
  simp only [OnlyLate, List.takeWhile_cons, hc, Bool.not_false, if_true, List.mem_cons, not_newer]
  constructor
  · intro h
    refine ⟨fun o ho => ?_, fun v timestamp hu => h v timestamp (.inr hu)⟩
    cases c with
    | updateStatus v timestamp =>
      cases ho
      exact h v timestamp (.inl rfl)
    | _ => cases ho
  · rintro ⟨hlate, h⟩ v timestamp (rfl | hu)
    · exact hlate _ rfl
    · exact h v timestamp hu

theorem after_unknown [BEq α] {s : Signal α} {c : Call α} (hunknown : s.status = .unknown)
    (hc : ∀ o, c.observation? = some o → ¬ s.Newer o.1) :
    (s.after c).status = .unknown ∧ (s.after c).hasValue = s.hasValue ∧
      (s.after c).lastUpdateUs = s.lastUpdateUs := by
  cases c with
  | updateStatus v timestamp =>
    simp [Signal.after, updateStatus_late (hc _ rfl), hunknown]
  | invalidate timestamp =>
    simp only [Signal.after, invalidate]
    split_ifs <;> simp [hunknown]
  | refresh now => simp [Signal.after, refresh, hunknown]
  | setFreshnessTimeout | statusAt | snapshot => exact ⟨hunknown, rfl, rfl⟩

theorem after_newer [BEq α] {s : Signal α} {c : Call α} {o : UInt64 × α}
    (hc : c.observation? = some o) (hnewer : s.Newer o.1) :
    (s.after c).status = .valid ∧ ∀ t, t < o.1 → s.Recovered t [c] := by
  cases c with
  | updateStatus v timestamp =>
    cases hc
    refine ⟨by simp [Signal.after, updateStatus_newer hnewer], ?_⟩
    intro t ht
    exact ⟨[], v, timestamp, [], rfl, ht, (updated_iff_newer s v timestamp).mpr hnewer⟩
  | _ => cases hc

theorem staysUnknown_iff [BEq α] {t : UInt64} {s : Signal α} (later : List (Call α))
    (hunknown : s.status = .unknown) (hlast : s.Newer t) :
    s.StaysUnknown t later ↔ s.OnlyLate t later := by
  induction later generalizing s with
  | nil =>
    refine iff_of_true (fun calls hcalls _ => ?_) (by simp [OnlyLate])
    rw [List.prefix_nil.mp hcalls]
    exact isUnknown_statusAt hunknown
  | cons c cs ih =>
    rw [staysUnknown_cons hunknown]
    cases hc : c.newerThan t with
    | true =>
      refine iff_of_true (fun hnot => absurd ?_ hnot) (onlyLate_of_newerThan hc s cs)
      cases c with
      | updateStatus v timestamp =>
        have hlt : t < timestamp := of_decide_eq_true hc
        have hnewer : s.Newer timestamp := fun hvalue => UInt64.lt_trans (hlast hvalue) hlt
        exact (after_newer rfl hnewer).2 t hlt
      | _ => cases hc
    | false =>
      have hrecovered : ¬ s.Recovered t [c] := by
        intro h
        rw [h.newerThan] at hc
        cases hc
      rw [onlyLate_cons hc]
      by_cases hlate : ∀ o, c.observation? = some o → ¬ s.Newer o.1
      · obtain ⟨hunknown', hvalue, hwatermark⟩ := after_unknown hunknown hlate
        have hrest := ih hunknown' (by unfold Newer; rwa [hvalue, hwatermark])
        have honly : (s.after c).OnlyLate t cs ↔ s.OnlyLate t cs := by
          simp only [OnlyLate, hvalue, hwatermark]
        rw [hrest, honly]
        exact ⟨fun h => ⟨hlate, h hrecovered⟩, fun h _ => h.2⟩
      · -- an observation between the watermark and the invalidation revives the signal
        refine iff_of_false (fun h => ?_) fun h => hlate h.1
        simp only [not_forall, not_not] at hlate
        obtain ⟨o, ho, hnewer⟩ := hlate
        have hstays := (h hrecovered [] List.nil_prefix (not_recovered_nil t _)).1
        simp [isUnknown, (after_newer ho hnewer).1] at hstays

/-- After a successful invalidation the signal stays unknown until an update
newer than the invalidation is accepted, if and only if no observation in
between falls after the last accepted one. -/
theorem invalidated_stays_unknown_iff [BEq α] (s : Signal α) (t : UInt64)
    (later : List (Call α)) (hinvalidated : (s.invalidate t).2 = true) :
    (s.invalidate t).1.StaysUnknown t later ↔ s.OnlyLate t later := by
  have hnew : ¬ (s.hasValue && t ≤ s.lastUpdateUs) = true := by
    intro hold
    simp [invalidate, hold] at hinvalidated
  have hresult : (s.invalidate t).1 = { s with status := .unknown } := by
    unfold invalidate
    rw [if_neg hnew]
  rw [hresult]
  apply staysUnknown_iff later rfl
  intro hvalue
  have hvalue' : s.hasValue = true := hvalue
  simpa [hvalue'] using hnew

/-- A repeated and an older observation leave the signal unknown, a newer one ends it. -/
theorem invalidated_stays_unknown_iff_late :
    StaysUnknown (α := UInt16) 20
      (((make .none none).run [.updateStatus 5 10]).invalidate 20).1
      [.updateStatus 5 10, .updateStatus 6 8, .refresh 30, .updateStatus 7 21] := by
  refine (invalidated_stays_unknown_iff _ 20 _ (by decide)).mpr ?_
  intro v u hu
  have hlate : v = 5 ∧ u = 10 ∨ v = 6 ∧ u = 8 := by simpa [Call.newerThan] using hu
  rcases hlate with ⟨-, rfl⟩ | ⟨-, rfl⟩ <;> decide

/-- Invalidated at 20 over a value observed at 10, a signal accepts an
observation made at 15 and is valid again. -/
theorem invalidated_revived_by_older : ¬ ∀ (unit : SignalUnit) (timeoutUs : Option UInt64)
    (earlier later : List (Call UInt16)) (t : UInt64) (s : Signal UInt16),
    s = (make unit timeoutUs).run earlier → (s.invalidate t).2 = true →
      (s.invalidate t).1.StaysUnknown t later := by
  intro h
  have hstays := h .none none [.updateStatus 5 10] [.updateStatus 7 15] 20 _ rfl (by decide)
  have hunknown := (hstays [.updateStatus 7 15] (List.prefix_refl _) ?_).1
  · exact absurd hunknown (by decide)
  · rintro ⟨before, v, u, after, heq, hnewer, -⟩
    have hmem : Call.updateStatus v u ∈ [Call.updateStatus (7 : UInt16) 15] := by simp [heq]
    cases List.mem_singleton.mp hmem
    exact absurd hnewer (by decide)

end Signal
end Core
end VehicleCanCore

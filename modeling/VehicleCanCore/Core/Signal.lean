import VehicleCanCore.Automata.LastWriter

/-!
# Signals: values with a watermark, a status and a freshness timeout

A signal accepts only observations that are newer than the last accepted one,
so that its value and its watermark are a last-writer merge of all
observations made to it, whatever happens to its status in between.
-/

namespace VehicleCanCore
namespace Core

open Automata

inductive Availability
  | noData
  | fresh
  | stale
  | freshnessUnverified
  | unavailable
  deriving DecidableEq, Repr

inductive ValidationStatus
  | reference
  | observed
  | confirmed
  deriving DecidableEq, Repr

structure Reading (α : Type*) where
  value : Option α := none
  availability : Availability := .noData
  validation : ValidationStatus := .reference
  deriving DecidableEq, Repr

inductive SignalStatus
  | unknown
  | valid
  | stale
  deriving DecidableEq, Repr

inductive SignalUpdateResult
  | rejected
  | idempotent
  | updated
  deriving DecidableEq, Repr

inductive SignalUnit
  | none
  | kilometresPerHour
  | revolutionsPerMinute
  | boolean
  deriving DecidableEq, Repr

/-- `lastUpdateUs` is meaningful only when `hasValue` is true. -/
structure Signal (α : Type*) where
  value : α
  unit : SignalUnit := .none
  hasValue : Bool := false
  lastUpdateUs : UInt64 := 0
  freshnessTimeoutUs : Option UInt64 := none
  status : SignalStatus := .unknown
  deriving DecidableEq, Repr

namespace Signal

variable {α : Type*}

/-- The constructor; `default` stands for a value-initialized `T`. -/
def make [Inhabited α] (unit : SignalUnit) (timeoutUs : Option UInt64) : Signal α where
  value := default
  unit := unit
  freshnessTimeoutUs := timeoutUs

def isValid (s : Signal α) : Bool := s.status = .valid

def isStale (s : Signal α) : Bool := s.status = .stale

def isUnknown (s : Signal α) : Bool := s.status = .unknown

def isUnavailable (s : Signal α) : Bool := s.hasValue && s.status = .unknown

def updateStatus [BEq α] (s : Signal α) (newValue : α) (timestamp : UInt64) :
    Signal α × SignalUpdateResult :=
  if !s.hasValue then
    ({ s with value := newValue, lastUpdateUs := timestamp, hasValue := true, status := .valid },
      .updated)
  else if timestamp < s.lastUpdateUs then (s, .rejected)
  else if timestamp = s.lastUpdateUs then
    (s, if s.value == newValue then .idempotent else .rejected)
  else ({ s with value := newValue, lastUpdateUs := timestamp, status := .valid }, .updated)

def update [BEq α] (s : Signal α) (newValue : α) (timestamp : UInt64) : Signal α × Bool :=
  let (s, result) := s.updateStatus newValue timestamp
  (s, result ≠ .rejected)

def invalidate (s : Signal α) (timestamp : UInt64) : Signal α × Bool :=
  if s.hasValue && timestamp ≤ s.lastUpdateUs then (s, false)
  else ({ s with status := .unknown }, true)

def setFreshnessTimeout (s : Signal α) (timeoutUs : Option UInt64) : Signal α :=
  { s with freshnessTimeoutUs := timeoutUs }

def refresh (s : Signal α) (now : UInt64) : Signal α :=
  if s.status ≠ .valid || now < s.lastUpdateUs then s
  else
    match s.freshnessTimeoutUs with
    | none => if s.lastUpdateUs < now then { s with status := .stale } else s
    | some timeout => if timeout < now - s.lastUpdateUs then { s with status := .stale } else s

def statusAt (s : Signal α) (now : UInt64) : Availability :=
  if !s.hasValue then .noData
  else if s.status = .unknown then .unavailable
  else
    match s.freshnessTimeoutUs with
    | none => .freshnessUnverified
    | some timeout =>
      let age := if s.lastUpdateUs ≤ now then now - s.lastUpdateUs else 0
      if age ≤ timeout then .fresh else .stale

def snapshot (s : Signal α) (now : UInt64) (validation : ValidationStatus) : Reading α where
  value := if s.hasValue then some s.value else none
  availability := s.statusAt now
  validation := validation

/-! ## Sequences of calls -/

inductive Call (α : Type*)
  | updateStatus (newValue : α) (timestamp : UInt64)
  | invalidate (timestamp : UInt64)
  | refresh (now : UInt64)
  | setFreshnessTimeout (timeoutUs : Option UInt64)
  | statusAt (now : UInt64)
  | snapshot (now : UInt64) (validation : ValidationStatus)
  deriving DecidableEq

/-- The signal after one call; `statusAt` and `snapshot` are const. -/
def after [BEq α] (s : Signal α) : Call α → Signal α
  | .updateStatus newValue timestamp => (s.updateStatus newValue timestamp).1
  | .invalidate timestamp => (s.invalidate timestamp).1
  | .refresh now => s.refresh now
  | .setFreshnessTimeout timeoutUs => s.setFreshnessTimeout timeoutUs
  | .statusAt _ | .snapshot _ _ => s

def run [BEq α] (s : Signal α) (calls : List (Call α)) : Signal α := calls.foldl after s

@[simp] theorem run_nil [BEq α] (s : Signal α) : s.run [] = s := rfl

@[simp] theorem run_cons [BEq α] (s : Signal α) (c : Call α) (cs : List (Call α)) :
    s.run (c :: cs) = (s.after c).run cs := rfl

theorem run_append [BEq α] (s : Signal α) (cs ds : List (Call α)) :
    s.run (cs ++ ds) = (s.run cs).run ds := List.foldl_append

/-! ## The merge of all observations -/

/-- The observation that an update carries: its timestamp and its value. -/
def Call.observation? : Call α → Option (UInt64 × α)
  | updateStatus newValue timestamp => some (timestamp, newValue)
  | _ => none

def observations (calls : List (Call α)) : List (UInt64 × α) := calls.filterMap Call.observation?

theorem observations_append (cs ds : List (Call α)) :
    observations (cs ++ ds) = observations cs ++ observations ds := List.filterMap_append

/-- The last accepted observation. -/
def accepted (s : Signal α) : Option (UInt64 × α) :=
  if s.hasValue then some (s.lastUpdateUs, s.value) else none

def timestamp (o : UInt64 × α) : ℕ := o.1.toNat

theorem accepted_of_hasValue {s : Signal α} (h : s.hasValue = true) :
    s.accepted = some (s.lastUpdateUs, s.value) := if_pos h

theorem accepted_eq_none {s : Signal α} : s.accepted = none ↔ s.hasValue = false := by
  cases h : s.hasValue <;> simp [accepted, h]

@[simp] theorem accepted_make [Inhabited α] (unit : SignalUnit) (timeoutUs : Option UInt64) :
    (make unit timeoutUs : Signal α).accepted = none := rfl

@[simp] theorem accepted_invalidate (s : Signal α) (t : UInt64) :
    (s.invalidate t).1.accepted = s.accepted := by
  unfold invalidate
  split_ifs <;> rfl

theorem refresh_cases (s : Signal α) (now : UInt64) :
    s.refresh now = s ∨ s.refresh now = { s with status := .stale } := by
  unfold refresh
  by_cases h : s.status ≠ .valid || now < s.lastUpdateUs
  · exact .inl (if_pos h)
  · rw [if_neg h]
    cases s.freshnessTimeoutUs with
    | none => exact (ite_eq_or_eq _ _ _).symm
    | some timeout => exact (ite_eq_or_eq _ _ _).symm

@[simp] theorem accepted_refresh (s : Signal α) (now : UInt64) :
    (s.refresh now).accepted = s.accepted := by
  rcases s.refresh_cases now with h | h <;> rw [h]
  rfl

@[simp] theorem accepted_setFreshnessTimeout (s : Signal α) (timeoutUs : Option UInt64) :
    (s.setFreshnessTimeout timeoutUs).accepted = s.accepted := rfl

/-- An observation that is newer than the accepted one, or the first one at all. -/
def Newer (s : Signal α) (t : UInt64) : Prop := s.hasValue = true → s.lastUpdateUs < t

theorem not_newer {s : Signal α} {t : UInt64} :
    ¬ s.Newer t ↔ s.hasValue = true ∧ t ≤ s.lastUpdateUs := by
  simp [Newer]

theorem updateStatus_newer [BEq α] {s : Signal α} {t : UInt64} (h : s.Newer t) (v : α) :
    s.updateStatus v t =
      ({ s with value := v, lastUpdateUs := t, hasValue := true, status := .valid }, .updated) := by
  unfold updateStatus
  cases hvalue : s.hasValue with
  | false => simp
  | true =>
    have hlt := h hvalue
    rw [if_neg (by simp), if_neg (UInt64.lt_asymm hlt), if_neg (UInt64.ne_of_lt hlt).symm]

theorem updateStatus_late [BEq α] {s : Signal α} {t : UInt64} (h : ¬ s.Newer t) (v : α) :
    s.updateStatus v t =
      (s, if t = s.lastUpdateUs ∧ s.value == v then .idempotent else .rejected) := by
  obtain ⟨hvalue, hle⟩ := not_newer.mp h
  unfold updateStatus
  by_cases heq : t = s.lastUpdateUs
  · simp [hvalue, heq]
  · have hlt : t < s.lastUpdateUs := UInt64.lt_of_le_of_ne hle heq
    simp [hvalue, hlt, heq]

theorem updated_iff_newer [BEq α] (s : Signal α) (v : α) (t : UInt64) :
    (s.updateStatus v t).2 = .updated ↔ s.Newer t := by
  by_cases h : s.Newer t
  · simp [updateStatus_newer h, h]
  · rw [updateStatus_late h]
    refine iff_of_false ?_ h
    dsimp only
    split_ifs <;> simp

theorem updateStatus_unchanged [BEq α] {s : Signal α} {v : α} {t : UInt64}
    (h : (s.updateStatus v t).2 ≠ .updated) : (s.updateStatus v t).1 = s := by
  rw [ne_eq, updated_iff_newer] at h
  rw [updateStatus_late h]

theorem idempotent_iff [BEq α] [LawfulBEq α] (s : Signal α) (v : α) (t : UInt64) :
    (s.updateStatus v t).2 = .idempotent ↔
      s.hasValue = true ∧ t = s.lastUpdateUs ∧ v = s.value := by
  by_cases h : s.Newer t
  · rw [updateStatus_newer h]
    refine iff_of_false (by simp) ?_
    rintro ⟨hvalue, rfl, -⟩
    exact UInt64.lt_irrefl _ (h hvalue)
  · rw [updateStatus_late h, eq_comm (a := v)]
    have hvalue := (not_newer.mp h).1
    by_cases hsame : t = s.lastUpdateUs ∧ s.value = v <;> simp [hsame, hvalue]

theorem newer_iff {s : Signal α} {os : List (UInt64 × α)} (h : s.accepted = os.argmax timestamp)
    (t : UInt64) : s.Newer t ↔ ∀ o ∈ os, o.1 < t := by
  unfold Newer
  cases hvalue : s.hasValue with
  | false =>
    rw [accepted_eq_none.mpr hvalue, eq_comm, List.argmax_eq_none] at h
    simp [h]
  | true =>
    rw [accepted_of_hasValue hvalue] at h
    simp only [true_implies]
    constructor
    · intro hlt o ho
      have hle := List.le_of_mem_argmax ho h.symm
      exact UInt64.lt_iff_toNat_lt.mpr (lt_of_le_of_lt hle (UInt64.lt_iff_toNat_lt.mp hlt))
    · intro hall
      exact hall _ (List.argmax_mem h.symm)

theorem accepted_after [BEq α] (s : Signal α) (c : Call α) {os : List (UInt64 × α)}
    (h : s.accepted = os.argmax timestamp) :
    (s.after c).accepted = (os ++ c.observation?.toList).argmax timestamp := by
  cases c with
  | updateStatus v t =>
    simp only [after, Call.observation?, Option.toList_some]
    by_cases hnewer : s.Newer t
    · rw [updateStatus_newer hnewer, LastWriter.argmax_append_newer (a := (t, v))]
      · rfl
      · intro o ho
        exact UInt64.lt_iff_toNat_lt.mp ((newer_iff h t).mp hnewer o ho)
    · obtain ⟨hvalue, hle⟩ := not_newer.mp hnewer
      rw [accepted_of_hasValue hvalue] at h
      have hmem := List.argmax_mem h.symm
      have hstamp := UInt64.le_iff_toNat_le.mp hle
      rw [updateStatus_late hnewer, LastWriter.argmax_append_older hmem hstamp, ← h,
        accepted_of_hasValue hvalue]
  | invalidate | refresh | setFreshnessTimeout | statusAt | snapshot =>
    simpa [after, Call.observation?] using h

/-- The accepted observation is the last-writer merge of all observations. -/
theorem accepted_run [BEq α] [Inhabited α] (unit : SignalUnit) (timeoutUs : Option UInt64)
    (calls : List (Call α)) :
    ((make unit timeoutUs).run calls).accepted = (observations calls).argmax timestamp := by
  induction calls using List.reverseRecOn with
  | nil => rfl
  | append_singleton cs c ih =>
    rw [run_append, observations_append]
    have hlast : observations [c] = c.observation?.toList := by
      cases h : c.observation? <;> simp [observations, h]
    rw [hlast]
    exact accepted_after _ c ih

theorem accepted_eq_some {s : Signal α} {o : UInt64 × α} :
    s.accepted = some o ↔ s.hasValue = true ∧ o = (s.lastUpdateUs, s.value) := by
  cases h : s.hasValue <;> simp [accepted, h, eq_comm]

/-- The first of the observations that carry the greatest timestamp. -/
def IsFirstLatest (os : List (UInt64 × α)) (o : UInt64 × α) : Prop :=
  ∃ before after, os = before ++ o :: after ∧ (∀ p ∈ before, p.1 < o.1) ∧ ∀ p ∈ after, p.1 ≤ o.1

section Merge

variable [BEq α] [Inhabited α] (unit : SignalUnit) (timeoutUs : Option UInt64)

theorem hasValue_run (calls : List (Call α)) :
    ((make unit timeoutUs).run calls).hasValue = true ↔ observations calls ≠ [] := by
  rw [ne_eq, ← List.argmax_eq_none (f := timestamp), ← accepted_run unit timeoutUs calls,
    accepted_eq_none, Bool.not_eq_false]

theorem isFirstLatest_run {calls : List (Call α)} (h : observations calls ≠ []) :
    IsFirstLatest (observations calls) (((make unit timeoutUs).run calls).lastUpdateUs,
      ((make unit timeoutUs).run calls).value) := by
  have hvalue := (hasValue_run unit timeoutUs calls).mpr h
  have haccepted := accepted_run unit timeoutUs calls
  rw [accepted_of_hasValue hvalue] at haccepted
  obtain ⟨before, after, hos, hbefore, hafter⟩ :=
    LastWriter.exists_of_mem_argmax haccepted.symm
  exact ⟨before, after, hos, fun p hp => UInt64.lt_iff_toNat_lt.mpr (hbefore p hp),
    fun p hp => UInt64.le_iff_toNat_le.mpr (hafter p hp)⟩

/-- With distinct timestamps the accepted observation depends neither on the
order of arrival nor on any other call. -/
theorem accepted_run_perm {calls calls' : List (Call α)}
    (hperm : (observations calls).Perm (observations calls'))
    (hdistinct : ((observations calls).map Prod.fst).Nodup) :
    ((make unit timeoutUs).run calls).accepted = ((make unit timeoutUs).run calls').accepted := by
  rw [accepted_run, accepted_run]
  apply LastWriter.argmax_perm hperm
  have hmap : (observations calls).map timestamp =
      ((observations calls).map Prod.fst).map UInt64.toNat := by simp [timestamp]
  rw [hmap]
  exact hdistinct.map (fun _ _ => UInt64.toNat_inj.mp)

/-- An update is accepted exactly when its timestamp is a new maximum. -/
theorem updated_iff (calls : List (Call α)) (v : α) (t : UInt64) :
    (((make unit timeoutUs).run calls).updateStatus v t).2 = .updated ↔
      ∀ o ∈ observations calls, o.1 < t := by
  rw [updated_iff_newer]
  exact newer_iff (accepted_run unit timeoutUs calls) t

end Merge

/-- The signal is a last-writer register by timestamp: watermark and value are
those of the first observation with the greatest timestamp, in every order of
arrival, and each result tells how the observation relates to it. -/
theorem last_writer_merge [BEq α] [LawfulBEq α] [Inhabited α] (unit : SignalUnit)
    (timeoutUs : Option UInt64) :
    (∀ (calls : List (Call α)) (s : Signal α), (make unit timeoutUs).run calls = s →
      (s.hasValue = true ↔ observations calls ≠ []) ∧
      (observations calls ≠ [] →
        IsFirstLatest (observations calls) (s.lastUpdateUs, s.value)) ∧
      ∀ v t, ((s.updateStatus v t).2 = .updated ↔ ∀ o ∈ observations calls, o.1 < t) ∧
        ((s.updateStatus v t).2 = .idempotent ↔
          observations calls ≠ [] ∧ t = s.lastUpdateUs ∧ v = s.value) ∧
        ((s.updateStatus v t).2 ≠ .updated → (s.updateStatus v t).1 = s)) ∧
    ∀ (calls calls' : List (Call α)) (s s' : Signal α), (make unit timeoutUs).run calls = s →
      (make unit timeoutUs).run calls' = s' →
      (observations calls).Perm (observations calls') →
      ((observations calls).map Prod.fst).Nodup →
      s.hasValue = s'.hasValue ∧
        (s.hasValue = true → s.lastUpdateUs = s'.lastUpdateUs ∧ s.value = s'.value) := by
  constructor
  · rintro calls s rfl
    have hvalue := hasValue_run unit timeoutUs calls
    refine ⟨hvalue, isFirstLatest_run unit timeoutUs, fun v t => ?_⟩
    refine ⟨updated_iff unit timeoutUs calls v t, ?_, updateStatus_unchanged⟩
    rw [← hvalue]
    exact idempotent_iff _ v t
  · rintro calls calls' s s' rfl rfl hperm hdistinct
    have haccepted := accepted_run_perm unit timeoutUs hperm hdistinct
    cases hvalue : ((make unit timeoutUs).run calls).hasValue with
    | false =>
      rw [accepted_eq_none.mpr hvalue, eq_comm, accepted_eq_none] at haccepted
      simp [haccepted]
    | true =>
      rw [accepted_of_hasValue hvalue, eq_comm, accepted_eq_some, Prod.mk.injEq] at haccepted
      exact ⟨haccepted.1.symm, fun _ => haccepted.2⟩

/-- The speeds 50 and 60 arrive out of order around an invalidation; a repeat of
the newer one is idempotent. -/
theorem last_writer_merge_reordered :
    let early : List (Call UInt16) :=
      [.updateStatus 50 0, .invalidate 7, .refresh 8, .updateStatus 60 10]
    let late : List (Call UInt16) := [.updateStatus 60 10, .updateStatus 50 0, .statusAt 3]
    ((make .none none).run early).value = ((make .none none).run late).value ∧
      (((make .none none).run late).updateStatus 60 10).2 = .idempotent := by
  intro early late
  obtain ⟨hmerge, hperm⟩ := last_writer_merge (α := UInt16) .none none
  obtain ⟨-, hsame⟩ := hperm early late _ _ rfl rfl (by decide) (by decide)
  obtain ⟨-, -, hresults⟩ := hmerge late _ rfl
  exact ⟨(hsame (by decide)).2, (hresults 60 10).2.1.mpr (by decide)⟩

end Signal
end Core
end VehicleCanCore

import VehicleCanCore.CanBus.Calls
import VehicleCanCore.Telemetry.Boundary

/-!
# CAN sources and the cleanup claim

Every `CanBusSource` keeps one flag: whether this object must clean up the
process-wide acquisition. The system below has any number of such objects over
the one acquisition, which is used only through them. Calls on the objects are
serialized; receive tasks, consumers and observers of the acquisition run at any
moment, also inside a call.
-/

namespace VehicleCanCore
namespace Telemetry

open Automata

def mapStartResult : CanBus.Result → ResultCode
  | .ok => .ok
  | .invalidConfiguration => .invalidConfiguration
  | .alreadyStarted => .alreadyRunning
  | .stopping => .stopping
  | .faulted | .driverFailure | .taskFailure => .faulted
  | .notStarted | .timeout => .invalidState

def mapStopResult : CanBus.Result → ResultCode
  | .ok => .ok
  | .notStarted => .notRunning
  | .stopping => .stopping
  | .timeout => .timeout
  | .faulted | .driverFailure | .taskFailure => .faulted
  | .invalidConfiguration | .alreadyStarted => .invalidState

structure CanBusSource where
  configuration : CanBus.Configuration := {}
  ownsAcquisition : Bool := false
  deriving DecidableEq, Repr

namespace CanBusSource

/-- Copies carry configuration only, never another source's cleanup claim. -/
def copy (other : CanBusSource) : CanBusSource := { configuration := other.configuration }

/-- Assignment keeps this instance's claim. -/
def assign (self other : CanBusSource) : CanBusSource :=
  { self with configuration := other.configuration }

/-- The rest of `start` once `start_with_ownership` has returned. -/
def afterStart (self : CanBusSource) (outcome : CanBus.StartOutcome) : CanBusSource × ResultCode :=
  (if outcome.cleanupRequired then { self with ownsAcquisition := true } else self,
    mapStartResult outcome.result)

/-- The rest of `stop` once `can_bus::stop` has returned. -/
def afterStop (self : CanBusSource) (result : CanBus.Result) : CanBusSource × ResultCode :=
  let result := mapStopResult result
  (if result = .ok ∨ result = .notRunning then { self with ownsAcquisition := false } else self,
    result)

def supportsStopRetry : Bool := true

/-- What an event of the acquisition means to the object whose call is in progress. -/
def take (self : CanBusSource) : CanBus.Event → Option (CanBusSource × ResultCode)
  | .started outcome => some (self.afterStart outcome)
  | .stopped result => some (self.afterStop result)
  | _ => none

end CanBusSource

namespace Sources

inductive Operation
  | start
  | stop
  | retryStop
  deriving DecidableEq, Repr

structure State where
  bus : CanBus.State := CanBus.boot
  sources : ℕ → Option CanBusSource := fun _ => none
  call : Option (ℕ × Operation) := none

/-- `busStop` is a call of `can_bus::stop()`. -/
inductive Event
  | busStop (i : ℕ)
  | returned (i : ℕ) (result : ResultCode)
  deriving DecidableEq, Repr

inductive Action
  | construct (i : ℕ) (configuration : CanBus.Configuration)
  | copy (i j : ℕ)
  | assign (i j : ℕ)
  | destroy (i : ℕ)
  | call (i : ℕ) (op : Operation)
  | bus (a : CanBus.Action)

namespace State

def setSource (s : State) (i : ℕ) (source : Option CanBusSource) : State :=
  { s with sources := Function.update s.sources i source }

/-- The claim of an object; objects that do not exist have none. -/
def owns (s : State) (i : ℕ) : Bool := (s.sources i).any CanBusSource.ownsAcquisition

/-- A step of the acquisition inside the call of object `i`, or between calls. -/
def advance (s : State) (bus : CanBus.State) (es : List CanBus.Event) : State × List Event :=
  match s.call with
  | none => ({ s with bus := bus }, [])
  | some (i, _) =>
    match (s.sources i).bind fun self => es.findSome? self.take with
    | none => ({ s with bus := bus }, [])
    | some (self, result) =>
      ({ s with bus := bus, call := none }.setSource i (some self), [.returned i result])

end State

/-- Objects are created, assigned and destroyed between calls, and the owner is
not destroyed while owning. -/
def step (s : State) : Action → Option (State × List Event)
  | .construct i configuration =>
    match s.call, s.sources i with
    | none, none => some (s.setSource i (some { configuration := configuration }), [])
    | _, _ => none
  | .copy i j =>
    match s.call, s.sources i, s.sources j with
    | none, none, some other => some (s.setSource i (some other.copy), [])
    | _, _, _ => none
  | .assign i j =>
    match s.call, s.sources i, s.sources j with
    | none, some self, some other => some (s.setSource i (some (self.assign other)), [])
    | _, _, _ => none
  | .destroy i =>
    match s.call, s.sources i with
    | none, some self => if self.ownsAcquisition then none else some (s.setSource i none, [])
    | _, _ => none
  | .call i op =>
    match s.call, s.sources i with
    | none, some self =>
      if op = .start then
        (CanBus.step s.bus (.start self.configuration)).map fun (bus, es) =>
          { s with call := some (i, op) }.advance bus es
      else if self.ownsAcquisition then
        (CanBus.step s.bus .stop).map fun (bus, _) =>
          ({ s with bus := bus, call := some (i, op) }, [.busStop i])
      else some (s, [.returned i .notRunning])
    | _, _ => none
  | .bus a =>
    -- lifecycle calls reach the acquisition only through the objects
    if a.beginsCall then none
    else (CanBus.step s.bus a).map fun (bus, es) => s.advance bus es

def machine : Machine State Action Event := ⟨step⟩

/-! ## Steps -/

def Action.managesObjects : Action → Bool
  | .call .. | .bus _ => false
  | _ => true

namespace State

theorem owns_setSource (s : State) (i j : ℕ) (source : Option CanBusSource) :
    (s.setSource i source).owns j =
      if j = i then source.any CanBusSource.ownsAcquisition else s.owns j := by
  by_cases h : j = i
  · subst h
    simp [owns, setSource]
  · simp [owns, setSource, h]

theorem owns_of_source {s : State} {i : ℕ} {self : CanBusSource} (h : s.sources i = some self) :
    s.owns i = self.ownsAcquisition := by
  simp [owns, h]

end State

inductive Stepped (s : State) : Action → State → List Event → Prop
  | manage {a : Action} {t : State} (manages : a.managesObjects = true) (free : s.call = none)
    (bus : t.bus = s.bus) (call : t.call = none) (claims : ∀ j, t.owns j = s.owns j) :
    Stepped s a t []
  | start {i : ℕ} {self : CanBusSource} {bus : CanBus.State} {es : List CanBus.Event}
    (free : s.call = none) (object : s.sources i = some self)
    (hstep : CanBus.step s.bus (.start self.configuration) = some (bus, es)) :
    Stepped s (.call i .start) ({ s with call := some (i, .start) }.advance bus es).1
      ({ s with call := some (i, .start) }.advance bus es).2
  | stop {i : ℕ} {op : Operation} {self : CanBusSource} {bus : CanBus.State}
    {es : List CanBus.Event} (stops : op ≠ .start) (free : s.call = none)
    (object : s.sources i = some self) (owner : self.ownsAcquisition = true)
    (hstep : CanBus.step s.bus .stop = some (bus, es)) :
    Stepped s (.call i op) { s with bus := bus, call := some (i, op) } [.busStop i]
  | stopRefused {i : ℕ} {op : Operation} {self : CanBusSource} (stops : op ≠ .start)
    (free : s.call = none) (object : s.sources i = some self)
    (unowned : self.ownsAcquisition = false) :
    Stepped s (.call i op) s [.returned i .notRunning]
  | bus {a : CanBus.Action} {bus : CanBus.State} {es : List CanBus.Event}
    (background : a.beginsCall = false) (hstep : CanBus.step s.bus a = some (bus, es)) :
    Stepped s (.bus a) (s.advance bus es).1 (s.advance bus es).2

theorem step_cases {s t : State} {a : Action} {es : List Event} (h : step s a = some (t, es)) :
    Stepped s a t es := by
  cases a with
  | construct i configuration =>
    simp only [step] at h
    split at h <;> cases h
    rename_i hfree habsent
    refine .manage rfl hfree rfl hfree fun j => ?_
    rw [State.owns_setSource]
    split_ifs with hj
    · simp [hj, State.owns, habsent]
    · rfl
  | copy i j =>
    simp only [step] at h
    split at h <;> cases h
    rename_i hfree habsent _
    refine .manage rfl hfree rfl hfree fun k => ?_
    rw [State.owns_setSource]
    split_ifs with hk
    · simp [hk, State.owns, habsent, CanBusSource.copy]
    · rfl
  | assign i j =>
    simp only [step] at h
    split at h <;> cases h
    rename_i hfree hself _
    refine .manage rfl hfree rfl hfree fun k => ?_
    rw [State.owns_setSource]
    split_ifs with hk
    · simp [hk, State.owns, hself, CanBusSource.assign]
    · rfl
  | destroy i =>
    simp only [step] at h
    split at h
    · rename_i hfree hself
      split_ifs at h with howner
      cases h
      refine .manage rfl hfree rfl hfree fun k => ?_
      rw [State.owns_setSource]
      split_ifs with hk
      · simp [hk, State.owns, hself, howner]
      · rfl
    · cases h
  | call i op =>
    simp only [step] at h
    split at h
    · rename_i hfree hself
      split_ifs at h with hop howner
      · simp only [Option.map_eq_some_iff, Prod.exists] at h
        obtain ⟨bus, es', hstep, heq⟩ := h
        subst hop
        have hstart := Stepped.start hfree hself hstep
        rwa [heq] at hstart
      · simp only [Option.map_eq_some_iff, Prod.exists] at h
        obtain ⟨bus, es', hstep, heq⟩ := h
        cases heq
        exact .stop hop hfree hself howner hstep
      · cases h
        exact .stopRefused hop hfree hself (Bool.eq_false_iff.mpr howner)
    · cases h
  | bus a =>
    simp only [step] at h
    split_ifs at h with ha
    simp only [Option.map_eq_some_iff, Prod.exists] at h
    obtain ⟨bus, es', hstep, heq⟩ := h
    have hbus := Stepped.bus (Bool.eq_false_iff.mpr ha) hstep
    rwa [heq] at hbus

/-! ## What the acquisition tells an object -/

theorem take_eq_none {self : CanBusSource} {e : CanBus.Event} (h : e.returns = false) :
    self.take e = none := by
  cases e <;> simp_all [CanBus.Event.returns, CanBusSource.take]

theorem mapStopResult_released {r : CanBus.Result} :
    (mapStopResult r = .ok ∨ mapStopResult r = .notRunning) ↔ (r = .ok ∨ r = .notStarted) := by
  cases r <;> simp [mapStopResult]

theorem mapStartResult_ok {r : CanBus.Result} : mapStartResult r = .ok ↔ r = .ok := by
  cases r <;> simp [mapStartResult]

namespace State

def Active (s : State) : Prop := s.bus.shared.lifecycle.state ≠ .stopped

theorem advance_quiet {s : State} {bus : CanBus.State} {es : List CanBus.Event}
    (h : ∀ e ∈ es, e.returns = false) : s.advance bus es = ({ s with bus := bus }, []) := by
  unfold advance
  cases hcall : s.call with
  | none => rfl
  | some call =>
    have hnone : ((s.sources call.1).bind fun self => es.findSome? self.take) = none := by
      rw [Option.bind_eq_none_iff]
      exact fun self _ => List.findSome?_eq_none_iff.mpr fun e he => take_eq_none (h e he)
    simp [hnone]

theorem advance_free {s : State} {bus : CanBus.State} {es : List CanBus.Event}
    (h : s.call = none) : s.advance bus es = ({ s with bus := bus }, []) := by
  simp [advance, h]

theorem advance_taken {s : State} {bus : CanBus.State} {i : ℕ} {op : Operation}
    {self self' : CanBusSource} {e : CanBus.Event} {result : ResultCode}
    (hcall : s.call = some (i, op)) (hself : s.sources i = some self)
    (htake : self.take e = some (self', result)) :
    s.advance bus [e] =
      ({ s with bus := bus, call := none }.setSource i (some self'), [.returned i result]) := by
  simp [advance, hcall, hself, htake]

/-- At most one object holds the claim, and one does as long as the acquisition
is not stopped. -/
structure Exclusive (s : State) : Prop where
  unique : ∀ i j, s.owns i = true → s.owns j = true → i = j
  active : (∃ i, s.owns i = true) ↔ s.Active

/-- The claims while object `i` has called `op`: nothing changes before the
acquisition has accepted a start, and then nobody holds it. -/
def InCall (s : State) : Option (ℕ × Operation) → Prop
  | none => s.bus.control.phase = .idle ∧ s.Exclusive
  | some (i, .start) => (s.sources i).isSome = true ∧
      ((s.bus.control.phase = .entering ∧ s.Exclusive) ∨
        (s.bus.control.phase = .starting ∧ ∀ j, s.owns j = false))
  | some (i, _) => s.bus.control.phase = .stopping ∧ s.owns i = true ∧
      ∀ j, s.owns j = true → j = i

structure Sound (s : State) : Prop where
  bus : s.bus.Sound
  inCall : s.InCall s.call

end State

/-- The claims after a call of object `i` that has returned `result`, against
those before it. -/
def Operation.Settles (s t : State) (i : ℕ) (result : ResultCode) : Operation → Prop
  | .start => (∀ j, t.owns j = true ↔ s.owns j = true ∨ (j = i ∧ ¬ s.Active ∧ t.Active)) ∧
      (result = .ok → t.owns i = true) ∧
      (result = .alreadyRunning ∨ result = .invalidConfiguration → t.owns i = s.owns i)
  | _ => (∀ j, t.owns j = true ↔ s.owns j = true ∧ ¬ (j = i ∧ ¬ t.Active)) ∧
      (t.owns i = true ↔ s.owns i = true ∧ result ≠ .ok ∧ result ≠ .notRunning)

structure Open (s u : State) (i : ℕ) (op : Operation) : Prop where
  call : u.call = some (i, op)
  claims : ∀ j, u.owns j = s.owns j
  entering : op = .start → u.bus.control.phase = .entering → (u.Active ↔ s.Active)
  starting : op = .start → u.bus.control.phase = .starting → ¬ s.Active

structure Answered (s t : State) (i : ℕ) (op : Operation) (r : ResultCode) : Prop where
  call : t.call = none
  settles : op.Settles s t i r

theorem owns_afterStart {self : CanBusSource} {o : CanBus.StartOutcome} :
    (self.afterStart o).1.ownsAcquisition = (o.cleanupRequired || self.ownsAcquisition) := by
  cases h : o.cleanupRequired <;> simp [CanBusSource.afterStart, h]

theorem owns_afterStop {self : CanBusSource} {r : CanBus.Result} :
    (self.afterStop r).1.ownsAcquisition = true ↔
      self.ownsAcquisition = true ∧ ¬ (r = .ok ∨ r = .notStarted) := by
  simp only [CanBusSource.afterStop, mapStopResult_released]
  split_ifs with h <;> simp [h]

theorem State.inCall_start {s : State} {i : ℕ} (h : s.InCall (some (i, .start))) :
    (∃ self, s.sources i = some self) ∧
      ((s.bus.control.phase = .entering ∧ s.Exclusive) ∨
        (s.bus.control.phase = .starting ∧ ∀ j, s.owns j = false)) :=
  ⟨Option.isSome_iff_exists.mp h.1, h.2⟩

theorem advance_started {u : State} {i : ℕ} {op : Operation} {self : CanBusSource}
    (hcall : u.call = some (i, op)) (hself : u.sources i = some self) (bus : CanBus.State)
    (o : CanBus.StartOutcome) :
    ∃ t, u.advance bus [.started o] = (t, [.returned i (mapStartResult o.result)]) ∧
      t.bus = bus ∧ t.call = none ∧ (t.sources i).isSome = true ∧
      ∀ j, t.owns j = true ↔ (j = i ∧ o.cleanupRequired = true) ∨ u.owns j = true := by
  have htake : self.take (.started o) = some ((self.afterStart o).1, mapStartResult o.result) := rfl
  refine ⟨_, State.advance_taken hcall hself htake, rfl, rfl, by simp [State.setSource],
    fun j => ?_⟩
  by_cases hj : j = i
  · rw [State.owns_setSource, if_pos hj, hj, State.owns_of_source hself]
    simp [owns_afterStart]
  · rw [State.owns_setSource, if_neg hj]
    simp [hj, State.owns]

theorem advance_stopped {u : State} {i : ℕ} {op : Operation} {self : CanBusSource}
    (hcall : u.call = some (i, op)) (hself : u.sources i = some self) (bus : CanBus.State)
    (r : CanBus.Result) :
    ∃ t, u.advance bus [.stopped r] = (t, [.returned i (mapStopResult r)]) ∧
      t.bus = bus ∧ t.call = none ∧
      ∀ j, t.owns j = true ↔ u.owns j = true ∧ ¬ (j = i ∧ (r = .ok ∨ r = .notStarted)) := by
  have htake : self.take (.stopped r) = some ((self.afterStop r).1, mapStopResult r) := rfl
  refine ⟨_, State.advance_taken hcall hself htake, rfl, rfl, fun j => ?_⟩
  by_cases hj : j = i
  · rw [State.owns_setSource, if_pos hj, hj, State.owns_of_source hself]
    simpa using owns_afterStop
  · rw [State.owns_setSource, if_neg hj]
    simp [hj, State.owns]

theorem start_settles {s t : State} {i : ℕ} {o : CanBus.StartOutcome}
    (hclaims : ∀ j, t.owns j = true ↔ (j = i ∧ o.cleanupRequired = true) ∨ s.owns j = true)
    (howned : o.cleanupRequired = true ↔ ¬ s.Active ∧ t.Active)
    (hok : o.result = .ok → o.cleanupRequired = true)
    (hretained : o.cleanupRequired = true → o.result ≠ .alreadyStarted ∧
      o.result ≠ .invalidConfiguration) :
    Operation.start.Settles s t i (mapStartResult o.result) := by
  refine ⟨fun j => by rw [hclaims, howned]; tauto, fun hresult => ?_, fun hresult => ?_⟩
  · exact (hclaims i).mpr (.inl ⟨rfl, hok (mapStartResult_ok.mp hresult)⟩)
  · have hfree : o.cleanupRequired ≠ true := by
      intro hcleanup
      obtain ⟨h1, h2⟩ := hretained hcleanup
      cases hr : o.result <;> simp_all [mapStartResult]
    have := hclaims i
    cases ht : t.owns i <;> cases hs : s.owns i <;> simp_all

theorem stop_settles {s t : State} {i : ℕ} {op : Operation} {r : CanBus.Result} (hop : op ≠ .start)
    (hclaims : ∀ j, t.owns j = true ↔ s.owns j = true ∧ ¬ (j = i ∧ (r = .ok ∨ r = .notStarted)))
    (hreports : (r = .ok ∨ r = .notStarted) ↔ ¬ t.Active) :
    op.Settles s t i (mapStopResult r) := by
  have hsettles : (∀ j, t.owns j = true ↔ s.owns j = true ∧ ¬ (j = i ∧ ¬ t.Active)) ∧
      (t.owns i = true ↔ s.owns i = true ∧ mapStopResult r ≠ .ok ∧
        mapStopResult r ≠ .notRunning) := by
    refine ⟨fun j => by rw [hclaims, hreports], ?_⟩
    rw [hclaims, ← not_or, mapStopResult_released]
    tauto
  cases op with
  | start => exact absurd rfl hop
  | _ => exact hsettles

/-! ## What a step preserves -/

theorem State.Exclusive.congr {s t : State} (h : s.Exclusive) (hclaims : ∀ j, t.owns j = s.owns j)
    (hactive : t.Active ↔ s.Active) : t.Exclusive := by
  refine ⟨fun i j hi hj => ?_, ?_⟩
  · rw [hclaims] at hi hj
    exact h.unique i j hi hj
  · rw [hactive, ← h.active]
    simp [hclaims]

/-- A start that nobody else's claim stands against settles who holds it. -/
theorem exclusive_of_started {s t : State} {i : ℕ} {cleanup : Bool}
    (hnone : ∀ j, s.owns j = false)
    (hclaims : ∀ j, t.owns j = true ↔ (j = i ∧ cleanup = true) ∨ s.owns j = true)
    (howned : cleanup = true ↔ t.Active) : t.Exclusive := by
  refine ⟨fun j k hj hk => ?_, ?_⟩
  · simp only [hclaims, hnone, Bool.false_eq_true, or_false] at hj hk
    exact hj.1.trans hk.1.symm
  · simp [hclaims, hnone, howned]

theorem exclusive_of_stopped {s t : State} {i : ℕ} {released : Prop} (howner : s.owns i = true)
    (honly : ∀ j, s.owns j = true → j = i)
    (hclaims : ∀ j, t.owns j = true ↔ s.owns j = true ∧ ¬ (j = i ∧ released))
    (hreports : released ↔ ¬ t.Active) : t.Exclusive := by
  refine ⟨fun j k hj hk => ?_, ?_⟩
  · rw [hclaims] at hj hk
    exact (honly j hj.1).trans (honly k hk.1).symm
  · constructor
    · rintro ⟨j, hj⟩
      rw [hclaims, hreports] at hj
      have := honly j hj.1
      tauto
    · intro hactive
      exact ⟨i, (hclaims i).mpr ⟨howner, fun h => hreports.mp h.2 hactive⟩⟩

theorem advance_open_start {s u : State} {i : ℕ} {bus : CanBus.State} {es : List CanBus.Event}
    (hu : u.Sound) (hopen : Open s u i .start) (hbus : bus.Sound)
    (h : CanBus.Progress u.bus.shared bus.shared u.bus.control.phase bus.control.phase es) :
    (u.advance bus es).1.Sound ∧
      ((Open s (u.advance bus es).1 i .start ∧ (u.advance bus es).2 = []) ∨
        ∃ r, Answered s (u.advance bus es).1 i .start r ∧
          (u.advance bus es).2 = [.returned i r]) := by
  have hcall := hopen.call
  have hin := hu.inCall
  rw [hcall] at hin
  obtain ⟨⟨self, hself⟩, hphase⟩ := State.inCall_start hin
  generalize hp : u.bus.control.phase = p at h hphase
  generalize hp' : bus.control.phase = p' at h
  cases h with
  | within quiet undecided =>
    rw [State.advance_quiet quiet]
    have hactive : p = .entering → (({ u with bus := bus } : State).Active ↔ u.Active) :=
      fun he => (undecided (he ▸ rfl)).not
    have hsound : ({ u with bus := bus } : State).InCall u.call := by
      rw [hcall]
      refine ⟨hin.1, ?_⟩
      rcases hphase with ⟨hentering, hexclusive⟩ | ⟨hstarting, hnone⟩
      · exact .inl ⟨hp'.trans hentering, hexclusive.congr (fun _ => rfl) (hactive hentering)⟩
      · exact .inr ⟨hp'.trans hstarting, hnone⟩
    refine ⟨⟨hbus, hsound⟩, .inl ⟨⟨hcall, hopen.claims, ?_, ?_⟩, rfl⟩⟩
    · intro _ he
      have hentering := hp'.symm.trans he
      rw [hactive hentering, hopen.entering rfl (hp.trans hentering)]
    · exact fun _ hs => hopen.starting rfl (hp.trans (hp'.symm.trans hs))
  | accepted free =>
    rw [State.advance_quiet (by simp)]
    have hidle : ¬ u.Active := not_not.mpr free
    have hnone : ∀ j, u.owns j = false := by
      rcases hphase with ⟨-, hexclusive⟩ | ⟨hstarting, -⟩
      · simpa using hexclusive.active.not.mpr hidle
      · cases hstarting
    refine ⟨⟨hbus, by rw [hcall]; exact ⟨hin.1, .inr ⟨hp', hnone⟩⟩⟩,
      .inl ⟨⟨hcall, hopen.claims, ?_, ?_⟩, rfl⟩⟩
    · intro _ he
      cases hp'.symm.trans he
    · intro _ _
      rwa [← hopen.entering rfl hp]
  | refused same active result =>
    rename_i o
    subst result
    obtain ⟨t, heq, htbus, htcall, -, hclaims⟩ := advance_started hcall hself bus
      ⟨CanBus.rejectedResult u.bus.shared.lifecycle.state, false⟩
    rw [heq]
    have hsame : ∀ j, t.owns j = u.owns j := fun j => by
      have := hclaims j
      cases h1 : t.owns j <;> cases h2 : u.owns j <;> simp_all
    have hactive : t.Active ↔ u.Active := by rw [State.Active, htbus, same, State.Active]
    have hexclusive : u.Exclusive := by
      rcases hphase with ⟨-, hexclusive⟩ | ⟨hstarting, -⟩
      · exact hexclusive
      · cases hstarting
    refine ⟨⟨htbus ▸ hbus, ?_⟩, .inr ⟨_, ⟨htcall, ?_⟩, rfl⟩⟩
    · rw [htcall]
      exact ⟨htbus ▸ hp', hexclusive.congr hsame hactive⟩
    · refine start_settles (fun j => by rw [hclaims, hopen.claims]) ?_ ?_ (by simp)
      · have := hopen.entering rfl hp
        simp [← this, show u.Active from active]
      · cases hstate : u.bus.shared.lifecycle.state <;> simp_all [CanBus.rejectedResult]
  | started reports =>
    rename_i o
    obtain ⟨t, heq, htbus, htcall, -, hclaims⟩ := advance_started hcall hself bus o
    rw [heq]
    have hnone : ∀ j, u.owns j = false := by
      rcases hphase with ⟨hentering, -⟩ | ⟨-, hnone⟩
      · cases hentering
      · exact hnone
    have howned : o.cleanupRequired = true ↔ t.Active := by
      rw [reports.owned, State.Active, htbus]
    refine ⟨⟨htbus ▸ hbus, ?_⟩, .inr ⟨_, ⟨htcall, ?_⟩, rfl⟩⟩
    · rw [htcall]
      exact ⟨htbus ▸ hp', exclusive_of_started hnone hclaims howned⟩
    · refine start_settles (fun j => by rw [hclaims, hopen.claims]) ?_ reports.accepted
        reports.retained
      rw [howned, and_iff_right (hopen.starting rfl hp)]
  | stopped =>
    rcases hphase with ⟨hentering, -⟩ | ⟨hstarting, -⟩
    · cases hentering
    · cases hstarting

theorem advance_open_stop {s u : State} {i : ℕ} {op : Operation} {bus : CanBus.State}
    {es : List CanBus.Event} (hop : op ≠ .start) (hu : u.Sound) (hopen : Open s u i op)
    (hbus : bus.Sound)
    (h : CanBus.Progress u.bus.shared bus.shared u.bus.control.phase bus.control.phase es) :
    (u.advance bus es).1.Sound ∧
      ((Open s (u.advance bus es).1 i op ∧ (u.advance bus es).2 = []) ∨
        ∃ r, Answered s (u.advance bus es).1 i op r ∧
          (u.advance bus es).2 = [.returned i r]) := by
  have hcall := hopen.call
  have hin := hu.inCall
  rw [hcall] at hin
  obtain ⟨hphase, howner, honly⟩ : u.bus.control.phase = .stopping ∧ u.owns i = true ∧
      ∀ j, u.owns j = true → j = i := by cases op <;> first | exact absurd rfl hop | exact hin
  obtain ⟨self, hself⟩ : ∃ self, u.sources i = some self := by
    cases hself : u.sources i <;> simp_all [State.owns]
  generalize hp : u.bus.control.phase = p at h hphase
  generalize hp' : bus.control.phase = p' at h
  cases h with
  | within quiet =>
    rw [State.advance_quiet quiet]
    have hsound : ({ u with bus := bus } : State).InCall u.call := by
      rw [hcall]
      cases op with
      | start => exact absurd rfl hop
      | _ => exact ⟨hp'.trans hphase, howner, honly⟩
    exact ⟨⟨hbus, hsound⟩,
      .inl ⟨⟨hcall, hopen.claims, fun h => absurd h hop, fun h => absurd h hop⟩, rfl⟩⟩
  | stopped reports =>
    rename_i r
    obtain ⟨t, heq, htbus, htcall, hclaims⟩ := advance_stopped hcall hself bus r
    rw [heq]
    have hreports : (r = .ok ∨ r = .notStarted) ↔ ¬ t.Active := by
      rw [State.Active, htbus, not_not]
      exact reports
    refine ⟨⟨htbus ▸ hbus, ?_⟩, .inr ⟨_, ⟨htcall, ?_⟩, rfl⟩⟩
    · rw [htcall]
      exact ⟨htbus ▸ hp', exclusive_of_stopped howner honly hclaims hreports⟩
    · exact stop_settles hop (fun j => by rw [hclaims, hopen.claims]) hreports
  | _ => cases hphase

theorem step_open {s u t : State} {i : ℕ} {op : Operation} {a : Action} {es : List Event}
    (hu : u.Sound) (hopen : Open s u i op) (h : step u a = some (t, es)) :
    t.Sound ∧ ((Open s t i op ∧ es = []) ∨ ∃ r, Answered s t i op r ∧ es = [.returned i r]) := by
  have hcall := hopen.call
  cases step_cases h with
  | manage manages free => simp [free] at hcall
  | start free | stop stops free | stopRefused stops free => simp [free] at hcall
  | bus background hstep =>
    obtain ⟨hbus, hprogress⟩ := CanBus.step_progress hu.bus background hstep
    by_cases hop : op = .start
    · subst hop
      exact advance_open_start hu hopen hbus hprogress
    · exact advance_open_stop hop hu hopen hbus hprogress

theorem step_free {s t : State} {a : Action} {es : List Event} (hs : s.Sound)
    (hfree : s.call = none) (h : step s a = some (t, es)) :
    t.Sound ∧ ((∃ i op, a = .call i op ∧
        ((Open s t i op ∧ t.bus.shared = s.bus.shared ∧
            (es = [] ∨ (es = [.busStop i] ∧ s.owns i = true))) ∨
          ∃ r, Answered s t i op r ∧ es = [.returned i r])) ∨
      ((∀ i op, a ≠ .call i op) ∧ t.call = none ∧ es = [] ∧ (∀ j, t.owns j = s.owns j) ∧
        (t.Active ↔ s.Active))) := by
  have hin := hs.inCall
  rw [hfree] at hin
  obtain ⟨hidle, hexclusive⟩ := hin
  cases step_cases h with
  | manage manages free bus call claims =>
    have hactive : t.Active ↔ s.Active := by rw [State.Active, bus, State.Active]
    refine ⟨⟨bus ▸ hs.bus, ?_⟩, .inr ⟨?_, call, rfl, claims, hactive⟩⟩
    · rw [call]
      exact ⟨bus ▸ hidle, hexclusive.congr claims hactive⟩
    · rintro i op rfl
      cases manages
  | start free object hstep =>
    rename_i i self bus fs
    obtain ⟨hbus, -, hshared, hresult⟩ := CanBus.step_start hs.bus hstep
    have hactive : bus.shared.lifecycle.state ≠ .stopped ↔ s.Active := by
      rw [hshared, State.Active]
    rcases hresult with ⟨hphase, rfl⟩ | ⟨hpc, rfl⟩
    · rw [State.advance_quiet (by simp)]
      refine ⟨⟨hbus, ⟨by simp [object], .inl ⟨hphase, hexclusive.congr (fun _ => rfl) hactive⟩⟩⟩,
        .inl ⟨i, .start, rfl, .inl ⟨⟨rfl, fun _ => rfl, fun _ _ => hactive, fun _ hstarting => ?_⟩,
          hshared, .inl rfl⟩⟩⟩
      cases hphase.symm.trans hstarting
    · have hcall : ({ s with call := some (i, .start) } : State).call = some (i, .start) := rfl
      obtain ⟨t, heq, htbus, htcall, -, hclaims⟩ := advance_started hcall object bus
        ⟨.invalidConfiguration, false⟩
      rw [heq]
      have hsame : ∀ j, t.owns j = s.owns j := fun j => by
        have := hclaims j
        rw [Bool.eq_iff_iff, this, Bool.false_eq_true, and_false, false_or]
        rfl
      have hactive' : t.Active ↔ s.Active := by rw [State.Active, htbus, hactive]
      refine ⟨⟨htbus ▸ hbus, ?_⟩, .inl ⟨i, .start, rfl, .inr ⟨_, ⟨htcall, ?_⟩, rfl⟩⟩⟩
      · rw [htcall]
        exact ⟨by rw [htbus, hpc]; rfl, hexclusive.congr hsame hactive'⟩
      · exact start_settles hclaims (by simp [hactive']) (by simp) (by simp)
  | stop stops free object owner hstep =>
    rename_i i op self bus fs
    obtain ⟨hbus, -, hshared, hphase, rfl⟩ := CanBus.step_stopCall hs.bus hstep
    have howner : s.owns i = true := (State.owns_of_source object).trans owner
    have hsound : ({ s with bus := bus, call := some (i, op) } : State).InCall (some (i, op)) := by
      cases op with
      | start => exact absurd rfl stops
      | _ => exact ⟨hphase, howner, fun j hj => hexclusive.unique j i hj howner⟩
    exact ⟨⟨hbus, hsound⟩, .inl ⟨i, op, rfl, .inl ⟨⟨rfl, fun _ => rfl,
      fun h => absurd h stops, fun h => absurd h stops⟩, hshared, .inr ⟨rfl, howner⟩⟩⟩⟩
  | stopRefused stops free object unowned =>
    rename_i i op self
    have hnone : s.owns i = false := (State.owns_of_source object).trans unowned
    refine ⟨hs, .inl ⟨i, op, rfl, .inr ⟨_, ⟨hfree, ?_⟩, rfl⟩⟩⟩
    cases op with
    | start => exact absurd rfl stops
    | _ =>
      refine ⟨fun j => ⟨fun hj => ⟨hj, ?_⟩, fun hj => hj.1⟩, by simp [hnone]⟩
      rintro ⟨rfl, -⟩
      simp [hnone] at hj
  | bus background hstep =>
    rename_i a bus fs
    obtain ⟨hbus, hprogress⟩ := CanBus.step_progress hs.bus background hstep
    rw [State.advance_free hfree]
    obtain ⟨hidle', hactive⟩ := (hidle ▸ hprogress).of_idle
    have hactive' : ({ s with bus := bus } : State).Active ↔ s.Active := hactive.not
    refine ⟨⟨hbus, ?_⟩, .inr ⟨nofun, hfree, rfl, fun _ => rfl, hactive'⟩⟩
    rw [hfree]
    exact ⟨hidle', hexclusive.congr (fun _ => rfl) hactive'⟩

/-! ## Runs -/

theorem sound_init : ({} : State).Sound := by
  refine ⟨CanBus.boot_sound, rfl, ⟨?_, ?_⟩⟩
  · simp [State.owns]
  · simp [State.owns, State.Active, CanBus.boot]

theorem exists_open {u : State} {i : ℕ} {op : Operation} (hcall : u.call = some (i, op)) :
    ∃ s, Open s u i op := by
  by_cases hstarting : u.bus.control.phase = .starting
  · -- a start is accepted only by a stopped acquisition
    refine ⟨{ u with bus := CanBus.boot }, hcall, fun _ => rfl, fun _ h => ?_, fun _ _ h => h rfl⟩
    cases hstarting.symm.trans h
  · exact ⟨u, hcall, fun _ => rfl, fun _ _ => Iff.rfl, fun _ h => absurd h hstarting⟩

theorem step_sound {s t : State} {a : Action} {es : List Event} (hs : s.Sound)
    (h : step s a = some (t, es)) : t.Sound := by
  cases hcall : s.call with
  | none => exact (step_free hs hcall h).1
  | some call =>
    obtain ⟨before, hopen⟩ := exists_open hcall
    exact (step_open hs hopen h).1

theorem reachable_sound {s : State} (h : machine.Reachable {} s) : s.Sound :=
  machine.reachable_invariant sound_init (fun _ _ _ _ hs hstep => step_sound hs hstep) h

theorem State.advance_bus (s : State) (bus : CanBus.State) (es : List CanBus.Event) :
    (s.advance bus es).1.bus = bus := by
  unfold advance
  split
  · rfl
  · split <;> rfl

theorem step_bus {s t : State} {a : Action} {es : List Event} (h : step s a = some (t, es)) :
    t.bus = s.bus ∨ ∃ b fs, CanBus.step s.bus b = some (t.bus, fs) := by
  cases step_cases h with
  | manage _ _ bus => exact .inl bus
  | start _ _ hstep =>
    rw [State.advance_bus]
    exact .inr ⟨_, _, hstep⟩
  | stop _ _ _ _ hstep => exact .inr ⟨_, _, hstep⟩
  | stopRefused => exact .inl rfl
  | bus _ hstep =>
    rw [State.advance_bus]
    exact .inr ⟨_, _, hstep⟩

/-- The acquisition behind its objects is the acquisition. -/
theorem reachable_bus {s : State} (h : machine.Reachable {} s) :
    CanBus.machine.Reachable CanBus.boot s.bus := by
  refine machine.reachable_invariant (I := fun s => CanBus.machine.Reachable CanBus.boot s.bus)
    (CanBus.machine.reachable_refl _) (fun s a t es hs hstep => ?_) h
  rcases step_bus hstep with hsame | ⟨b, fs, hbus⟩
  · exact hsame ▸ hs
  · have hrun : CanBus.machine.run s.bus [b] = some (t.bus, fs) := by
      rwa [Machine.run_singleton]
    exact hs.run hrun

theorem Operation.Settles.congr {s t u : State} {i : ℕ} {op : Operation} {r : ResultCode}
    (h : op.Settles s t i r) (hclaims : ∀ j, u.owns j = t.owns j) (hactive : u.Active ↔ t.Active) :
    op.Settles s u i r := by
  cases op <;> simpa only [Operation.Settles, hclaims, hactive] using h

/-- The account of the call `op` of object `i`, made in the state `s`. -/
def Account (s : State) (i : ℕ) (op : Operation) (h : List Event) (u : State) : Prop :=
  (Open s u i op ∧ ∀ r, .returned i r ∉ h) ∨
    ∃ r, Answered s u i op r ∧ ∀ r', .returned i r' ∈ h → r' = r

theorem step_account {s u t : State} {i : ℕ} {op : Operation} {a : CanBus.Action}
    {h es : List Event} (hu : u.Sound) (hacc : Account s i op h u)
    (hstep : step u (.bus a) = some (t, es)) : Account s i op (h ++ es) t := by
  rcases hacc with ⟨hopen, hno⟩ | ⟨r, hanswered, honly⟩
  · rcases (step_open hu hopen hstep).2 with ⟨hopen', rfl⟩ | ⟨r, hanswered, rfl⟩
    · exact .inl ⟨hopen', by simpa using hno⟩
    · exact .inr ⟨r, hanswered, fun r' hr' => by simpa [hno] using hr'⟩
  · rcases (step_free hu hanswered.call hstep).2 with
      ⟨_, _, hcall, -⟩ | ⟨-, hfree, rfl, hclaims, hactive⟩
    · cases hcall
    · exact .inr ⟨r, ⟨hfree, hanswered.settles.congr hclaims hactive⟩, by simpa using honly⟩

theorem run_account {s t : State} {i : ℕ} {op : Operation} {as : List CanBus.Action}
    {es : List Event} (hs : s.Sound) (hfree : s.call = none)
    (hrun : machine.run s (.call i op :: as.map .bus) = some (t, es)) : Account s i op es t := by
  obtain ⟨u, fs, gs, hu, htail, rfl⟩ := machine.run_cons.mp hrun
  replace hu : step s (.call i op) = some (u, fs) := hu
  have hbegun : Account s i op fs u := by
    rcases (step_free hs hfree hu).2 with ⟨i', op', hcall, heffect⟩ | ⟨hno, -⟩
    · cases hcall
      rcases heffect with ⟨hopen, -, rfl | ⟨rfl, -⟩⟩ | ⟨r, hanswered, rfl⟩
      · exact .inl ⟨hopen, by simp⟩
      · exact .inl ⟨hopen, by simp⟩
      · exact .inr ⟨r, hanswered, by simp⟩
    · exact absurd rfl (hno i op)
  refine (machine.run_invariant_along (C := fun _ a => ∃ b, a = .bus b)
    (I := fun h u => u.Sound ∧ Account s i op h u)
    (fun h u a t es hI ha hstep => ?_) ⟨step_sound hs hu, hbegun⟩
    (Machine.along_of_forall fun a ha => ?_) htail).2
  · obtain ⟨b, rfl⟩ := ha
    replace hstep : step u (.bus b) = some (t, es) := hstep
    exact ⟨step_sound hI.1 hstep, step_account hI.1 hI.2 hstep⟩
  · obtain ⟨b, -, rfl⟩ := List.mem_map.mp ha
    exact ⟨b, rfl⟩

theorem step_busStop {s t : State} {a : Action} {es : List Event} {i : ℕ} (hs : s.Sound)
    (h : step s a = some (t, es)) (hstop : .busStop i ∈ es) : s.owns i = true := by
  cases hcall : s.call with
  | none =>
    rcases (step_free hs hcall h).2 with
      ⟨i', op, -, ⟨-, -, rfl | ⟨rfl, howner⟩⟩ | ⟨r, -, rfl⟩⟩ | ⟨-, -, rfl, -⟩ <;> simp at hstop
    exact hstop ▸ howner
  | some call =>
    obtain ⟨before, hopen⟩ := exists_open hcall
    rcases (step_open hs hopen h).2 with ⟨-, rfl⟩ | ⟨r, -, rfl⟩ <;> simp at hstop

/-- The cleanup claim over every serialized use of any number of objects: only its
holder stops the acquisition; between calls it is exclusive and held exactly while
the acquisition is not stopped; a call moves it as `Operation.Settles` says, and
nothing else does. -/
theorem exclusive_cleanup_claim {s : State} {as : List Action} {es : List Event}
    (hrun : machine.run {} as = some (s, es)) :
    (∀ a t fs i, machine.step s a = some (t, fs) → .busStop i ∈ fs → s.owns i = true) ∧
      (s.call = none →
        s.Exclusive ∧
        (∀ i op (bs : List CanBus.Action) t fs,
          machine.run s (.call i op :: bs.map .bus) = some (t, fs) →
            ∀ r, .returned i r ∈ fs → op.Settles s t i r) ∧
        ∀ a t fs, (∀ i op, a ≠ .call i op) → machine.step s a = some (t, fs) →
          ∀ j, t.owns j = s.owns j) := by
  have hs : s.Sound := reachable_sound ⟨as, es, hrun⟩
  refine ⟨fun a t fs i hstep => step_busStop hs hstep, fun hfree => ⟨?_, ?_, ?_⟩⟩
  · have hin := hs.inCall
    rw [hfree] at hin
    exact hin.2
  · intro i op bs t fs hcall r hr
    rcases run_account hs hfree hcall with ⟨-, hno⟩ | ⟨r', hanswered, honly⟩
    · exact absurd hr (hno r)
    · exact honly r hr ▸ hanswered.settles
  · intro a t fs ha hstep
    rcases (step_free hs hfree hstep).2 with ⟨i, op, rfl, -⟩ | ⟨-, -, -, hclaims, -⟩
    · exact absurd rfl (ha i op)
    · exact hclaims

/-- Object 0 starts, object 1 copies it and is refused everything, the first stop
of object 0 fails, and its retry succeeds once the receive task is gone. -/
def handoverSchedule : List Action :=
  let control (ok : Bool) : Action := .bus (.control ok)
  let task : Action := .bus (.task 0 {})
  [.construct 0 {}, .call 0 .start] ++ List.replicate 37 (control true) ++
    [.copy 1 0, .call 1 .start, control true, control true, .call 1 .stop, .call 0 .stop] ++
    [control true, control true, control true, control true, control false, control true,
      control false, control true, control true, control true] ++
    [task, task, task, .call 0 .retryStop] ++ List.replicate 14 (control true)

theorem exclusive_cleanup_claim_handover : ∃ s es,
    machine.run {} handoverSchedule = some (s, es) ∧ s.call = none ∧ s.Exclusive ∧
      es = [.returned 0 .ok, .returned 1 .alreadyRunning, .returned 1 .notRunning, .busStop 0,
        .returned 0 .faulted, .busStop 0, .returned 0 .ok] := by
  have hobserved : (machine.run {} handoverSchedule).map (fun p => (p.1.call, p.2)) =
      some (none, [.returned 0 .ok, .returned 1 .alreadyRunning, .returned 1 .notRunning,
        .busStop 0, .returned 0 .faulted, .busStop 0, .returned 0 .ok]) := by decide +kernel
  obtain ⟨⟨s, es⟩, hrun, heq⟩ := Option.map_eq_some_iff.mp hobserved
  simp only [Prod.mk.injEq] at heq
  obtain ⟨-, hclaim⟩ := exclusive_cleanup_claim hrun
  exact ⟨s, es, hrun, heq.1, (hclaim heq.1).1, heq.2⟩

end Sources
end Telemetry
end VehicleCanCore

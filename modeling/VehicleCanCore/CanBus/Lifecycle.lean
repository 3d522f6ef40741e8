import Mathlib

/-!
# The acquisition lifecycle controller

Four separately updated atomics. Members that perform one atomic operation are
plain functions; the compare-exchange loops and the members with several
accesses are given by their program points.
-/

namespace VehicleCanCore
namespace CanBus

inductive LifecycleState
  | stopped
  | running
  | stopping
  | faulted
  deriving DecidableEq, Repr

structure LifecycleController where
  state : LifecycleState := .stopped
  driverInstalled : Bool := false
  driverStarted : Bool := false
  taskOwned : Bool := false
  deriving DecidableEq, Repr

namespace LifecycleController

/-- Only a fully stopped controller can transition to running. -/
def beginStart (c : LifecycleController) : Option LifecycleController :=
  if c.state = .stopped then some { c with state := .running } else none

def markDriverInstalled (c : LifecycleController) : LifecycleController :=
  { c with driverInstalled := true }

def markDriverStarted (c : LifecycleController) : LifecycleController :=
  { c with driverStarted := true }

def markTaskCreated (c : LifecycleController) : LifecycleController :=
  { c with taskOwned := true }

def markDriverStopped (c : LifecycleController) : LifecycleController :=
  { c with driverStarted := false }

def markDriverUninstalled (c : LifecycleController) : LifecycleController :=
  { c with driverInstalled := false }

def acknowledgeTask (c : LifecycleController) : LifecycleController :=
  { c with taskOwned := false }

/-! ## Compare-exchange loops -/

/-- A loop only tries to exchange a value on which it has not settled. -/
inductive CasPc (settled : LifecycleState → Option Bool)
  | load
  | exchange (current : LifecycleState) (unsettled : settled current = none)
  deriving DecidableEq, Repr

/-- The loop body of `begin_stop` and `latch_fault` on the value last seen:
either the call returns or it tries to exchange. -/
def judge (settled : LifecycleState → Option Bool) (current : LifecycleState) :
    CasPc settled ⊕ Bool :=
  match h : settled current with
  | some result => .inr result
  | none => .inl (.exchange current h)

/-- One atomic access of such a loop; a weak exchange may fail spuriously. -/
def casStep {settled : LifecycleState → Option Bool} (target : LifecycleState)
    (c : LifecycleController) (spurious : Bool) :
    CasPc settled → LifecycleController × (CasPc settled ⊕ Bool)
  | .load => (c, judge settled c.state)
  | .exchange current _ =>
    if spurious = false ∧ c.state = current then ({ c with state := target }, .inr true)
    else (c, judge settled c.state)

def stopSettled : LifecycleState → Option Bool
  | .stopped => some false
  | .stopping => some true
  | .running | .faulted => none

def faultSettled : LifecycleState → Option Bool
  | .faulted | .stopped => some false
  | .running | .stopping => none

/-- Running and faulted both accept a cleanup request; stopping is retained for
a later attempt. -/
def beginStopStep (c : LifecycleController) (spurious : Bool) (pc : CasPc stopSettled) :
    LifecycleController × (CasPc stopSettled ⊕ Bool) := c.casStep .stopping spurious pc

/-- The result tells whether this transition to faulted was new. -/
def latchFaultStep (c : LifecycleController) (spurious : Bool) (pc : CasPc faultSettled) :
    LifecycleController × (CasPc faultSettled ⊕ Bool) := c.casStep .faulted spurious pc

/-- An access either leaves the controller alone or replaces a state on which
the loop has not settled. -/
theorem casStep_cases {settled : LifecycleState → Option Bool} {target : LifecycleState}
    {c c' : LifecycleController} {spurious : Bool} {pc : CasPc settled}
    {r : CasPc settled ⊕ Bool} (h : c.casStep target spurious pc = (c', r)) :
    (c' = c ∧ r = judge settled c.state) ∨
      (settled c.state = none ∧ c' = { c with state := target } ∧ r = .inr true) := by
  cases pc with
  | load =>
    cases h
    exact .inl ⟨rfl, rfl⟩
  | exchange current unsettled =>
    simp only [casStep] at h
    split_ifs at h with hcas <;> cases h
    · exact .inr ⟨hcas.2 ▸ unsettled, rfl, rfl⟩
    · exact .inl ⟨rfl, rfl⟩

theorem judge_eq_inr {settled : LifecycleState → Option Bool} {current : LifecycleState}
    {result : Bool} (h : judge settled current = .inr result) : settled current = some result := by
  unfold judge at h
  split at h <;> cases h
  assumption

/-! ## Members with several accesses -/

inductive AbortPc
  | readInstalled
  | readOwned
  | store
  deriving DecidableEq, Repr

/-- One access of `abort_start`; no program point left means that it returned. -/
def abortStep (c : LifecycleController) : AbortPc → LifecycleController × Option AbortPc
  | .readInstalled => (c, if c.driverInstalled then none else some .readOwned)
  | .readOwned => (c, if c.taskOwned then none else some .store)
  | .store => ({ c with state := .stopped }, none)

inductive ReconcilePc
  | readOwned
  | readInstalled
  | store (target : LifecycleState)
  deriving DecidableEq, Repr

/-- A task still owned means that stop remains in progress; driver-only
ownership is a cleanup fault. -/
def reconcileStep (c : LifecycleController) :
    ReconcilePc → LifecycleController × Option ReconcilePc
  | .readOwned => (c, some (if c.taskOwned then .store .stopping else .readInstalled))
  | .readInstalled => (c, some (.store (if c.driverInstalled then .faulted else .stopped)))
  | .store target => ({ c with state := target }, none)

end LifecycleController
end CanBus
end VehicleCanCore

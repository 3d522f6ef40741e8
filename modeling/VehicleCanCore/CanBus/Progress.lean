import VehicleCanCore.CanBus.Calls
import VehicleCanCore.CanBus.SequentialRing

/-!
# No call waits for ever

A lifecycle call and a `receive` call that run on their own come closer to their
return with every step, whatever the driver answers: no wait is unbounded, and
the retry loops repeat only what somebody else has interfered with.
-/

namespace VehicleCanCore
namespace CanBus

open Automata LifecycleController

/-! ## Lifecycle calls -/

namespace LifecycleController

def AbortPc.rank : AbortPc → ℕ
  | .readInstalled => 2
  | .readOwned => 1
  | .store => 0

/-- Distance of a compare-exchange loop from its end while nobody interferes. -/
def CasPc.rank {settled : LifecycleState → Option Bool} (state : LifecycleState) :
    CasPc settled → ℕ
  | .load => 2
  | .exchange current _ => if current = state then 0 else 1

def ReconcilePc.rank : ReconcilePc → ℕ
  | .readOwned => 2
  | .readInstalled => 1
  | .store _ => 0

theorem CasPc.rank_judge {settled : LifecycleState → Option Bool} {state : LifecycleState}
    {pc : CasPc settled} (h : judge settled state = .inl pc) : pc.rank state = 0 := by
  unfold judge at h
  split at h <;> cases h
  simp [rank]

theorem casStep_rank {settled : LifecycleState → Option Bool} {target : LifecycleState}
    {c c' : LifecycleController} {pc pc' : CasPc settled}
    (h : c.casStep target false pc = (c', .inl pc')) : pc'.rank c'.state < pc.rank c.state := by
  cases pc with
  | load =>
    simp only [casStep, Prod.mk.injEq] at h
    obtain ⟨rfl, hjudge⟩ := h
    rw [CasPc.rank_judge hjudge]
    exact Nat.zero_lt_two
  | exchange current unsettled =>
    simp only [casStep] at h
    split_ifs at h with hcas
    · cases h
    · simp only [Prod.mk.injEq] at h
      obtain ⟨rfl, hjudge⟩ := h
      have hne : current ≠ c.state := fun heq => hcas ⟨trivial, heq.symm⟩
      rw [CasPc.rank_judge hjudge]
      simp [CasPc.rank, hne]

end LifecycleController

def ControlPc.driverCall : ControlPc → Option DriverCall
  | install configuration => some (.install (timingFor configuration.bitrateBps))
  | twaiStart _ => some .start
  | twaiStop | twaiStopAfterTask => some .stop
  | uninstall | uninstallAfterStart | uninstallAfterTask => some .uninstall
  | _ => none

/-- Distance of a lifecycle call from its return; the last loop of `stop` empties
`g_available`. -/
def ControlPc.distance (g : Shared) : ControlPc → ℕ
  | idle => 0
  | rejected | startSucceeded => 1
  | abortStart _ pc => 1 + pc.rank
  | drain => g.tokens + 1
  | reconcile _ pc => kQueueCapacity + 2 + pc.rank
  | markUninstalled | markUninstalledAfterStart | markUninstalledAfterTask => kQueueCapacity + 5
  | uninstall | uninstallAfterStart | uninstallAfterTask => kQueueCapacity + 6
  | readInstalled _ _ | markStoppedAfterTask => kQueueCapacity + 7
  | acknowledgeTask _ | tryTakeTask _ | twaiStopAfterTask => kQueueCapacity + 8
  | waitTask _ => kQueueCapacity + 9
  | beginStopAfterTask pc => kQueueCapacity + 9 + pc.rank g.lifecycle.state
  | readOwned _ => kQueueCapacity + 10
  | markStopped => kQueueCapacity + 11
  | twaiStop | acknowledgeAfterTask => kQueueCapacity + 12
  | readStarted | clearRequestedAfterTask => kQueueCapacity + 13
  | clearRequested | createTask => kQueueCapacity + 14
  | beginStop pc => kQueueCapacity + 15 + pc.rank g.lifecycle.state
  | markTaskCreated => kQueueCapacity + 15
  | setRequested => kQueueCapacity + 16
  | resetBaselines => kQueueCapacity + 17
  | recordControllerReset => kQueueCapacity + 18
  | setBusId _ => kQueueCapacity + 19
  | clearFrames _ pc => kQueueCapacity + 20 + pc.distance g.frames
  | markStarted _ => kQueueCapacity + 36 + Counter.all.length
  | twaiStart _ => kQueueCapacity + 37 + Counter.all.length
  | markInstalled _ => kQueueCapacity + 38 + Counter.all.length
  | install _ => kQueueCapacity + 39 + Counter.all.length
  | drainTaskStopped _ => kQueueCapacity + 40 + Counter.all.length + g.acknowledgements
  | drainAvailable _ => kQueueCapacity + 42 + Counter.all.length + g.tokens
  | createTaskStopped _ => 2 * kQueueCapacity + 43 + Counter.all.length
  | createAvailable _ => 2 * kQueueCapacity + 44 + Counter.all.length
  | beginStart _ => 2 * kQueueCapacity + 45 + Counter.all.length

theorem Shared.acknowledgements_le (g : Shared) : g.acknowledgements ≤ 1 := by
  unfold Shared.acknowledgements
  cases g.taskStopped with
  | none => exact Nat.zero_le _
  | some s => exact s.le_limit

/-- The program points at which the outcome is not the call's own doing. -/
def ControlPc.asks : ControlPc → Bool
  | createAvailable _ | createTaskStopped _ | createTask => true
  | pc => pc.driverCall.isSome

theorem controlStep_answered {g : Shared} {pc : ControlPc} (hasks : pc.asks = true)
    (answer : Bool) : ∃ g' pc' es, controlStep g answer pc = some (g', pc', es) ∧
      pc'.distance g' < pc.distance g := by
  have htokens := g.tokens_le
  cases pc with
  | createAvailable | install | twaiStart | uninstallAfterStart | createTask | twaiStopAfterTask
  | uninstallAfterTask | twaiStop | uninstall =>
    cases answer <;> refine ⟨_, _, _, rfl, ?_⟩ <;>
      simp only [ControlPc.distance, AbortPc.rank, ReconcilePc.rank, Bool.false_eq_true, if_true,
        if_false] <;> omega
  | createTaskStopped configuration =>
    simp only [controlStep]
    by_cases hcreated : (g.available.isNone ||
        (g.taskStopped.or (if answer then some Semaphore.empty else none)).isNone) = true
    · refine ⟨_, _, _, if_pos hcreated, ?_⟩
      simp only [ControlPc.distance, AbortPc.rank]
      omega
    · refine ⟨_, _, _, if_neg hcreated, ?_⟩
      simp only [ControlPc.distance, Shared.tokens] at htokens ⊢
      omega
  | _ => cases hasks

/-- Where nothing is answered, the call goes on by itself and waits for no receive task. -/
theorem controlStep_unasked {g : Shared} {pc : ControlPc}
    (hheld : pc.phase = .starting → g.frames.held ≤ kQueueCapacity) (hidle : pc ≠ .idle)
    (hasks : pc.asks = false) :
    ∃ ok g' pc' es, controlStep g ok pc = some (g', pc', es) ∧
      pc'.distance g' < pc.distance g := by
  have htokens := g.tokens_le
  have hacks := g.acknowledgements_le
  cases pc with
  | idle => exact absurd rfl hidle
  | beginStart configuration =>
    refine ⟨true, ?_⟩
    simp only [controlStep]
    cases g.lifecycle.beginStart <;> refine ⟨_, _, _, rfl, ?_⟩ <;>
      simp only [ControlPc.distance] <;> omega
  | abortStart result pc =>
    refine ⟨true, ?_⟩
    cases pc with
    | store => exact ⟨_, _, _, rfl, by simp [ControlPc.distance]⟩
    | readInstalled | readOwned =>
      simp only [controlStep, abortStep]
      split_ifs <;> exact ⟨_, _, _, rfl, by simp [ControlPc.distance, AbortPc.rank]⟩
  | drainAvailable configuration =>
    refine ⟨true, ?_⟩
    simp only [controlStep]
    cases htake : g.takeAvailable with
    | none =>
      refine ⟨_, _, _, rfl, ?_⟩
      simp only [ControlPc.distance]
      omega
    | some g' =>
      obtain ⟨-, -, -, hcount, -⟩ := Shared.takeAvailable_eq_some htake
      refine ⟨_, _, _, rfl, ?_⟩
      simp only [ControlPc.distance]
      omega
  | drainTaskStopped configuration =>
    refine ⟨true, ?_⟩
    simp only [controlStep]
    cases htake : g.takeTaskStopped with
    | none =>
      refine ⟨_, _, _, rfl, ?_⟩
      simp only [ControlPc.distance]
      omega
    | some g' =>
      obtain ⟨-, -, hcount, -⟩ := Shared.takeTaskStopped_eq_some htake
      refine ⟨_, _, _, rfl, ?_⟩
      simp only [ControlPc.distance]
      omega
  | drain =>
    refine ⟨true, ?_⟩
    simp only [controlStep]
    cases htake : g.takeAvailable with
    | none => exact ⟨_, _, _, rfl, by simp [ControlPc.distance]⟩
    | some g' =>
      obtain ⟨-, -, -, hcount, -⟩ := Shared.takeAvailable_eq_some htake
      refine ⟨_, _, _, rfl, ?_⟩
      simp only [ControlPc.distance]
      omega
  | clearFrames configuration pc =>
    obtain rfl | ⟨m, pc', es, hclear, hlt⟩ :=
      FrameRing.clearStep_advances (pc.bounded_of_held (hheld rfl))
    · exact ⟨true, _, _, _, rfl, by simp [ControlPc.distance, FrameRing.ClearPc.distance]⟩
    · refine ⟨true, { g with frames := m }, .clearFrames configuration pc', es.map .ring, ?_, ?_⟩
      · cases pc with
        | done => cases hclear
        | _ => simp [controlStep, hclear]
      · simpa [ControlPc.distance] using hlt
  | setBusId configuration | readStarted | readOwned driverStopped =>
    refine ⟨true, ?_⟩
    simp only [controlStep]
    refine ⟨_, _, _, rfl, ?_⟩
    split_ifs <;> simp only [ControlPc.distance] <;> omega
  | readInstalled driverStopped taskStopped =>
    refine ⟨true, ?_⟩
    simp only [controlStep]
    split_ifs <;> refine ⟨_, _, _, rfl, ?_⟩ <;>
      simp only [ControlPc.distance, ReconcilePc.rank] <;> omega
  | beginStop pc =>
    refine ⟨true, ?_⟩
    simp only [controlStep, Bool.not_true]
    cases hbegin : g.lifecycle.beginStopStep false pc with
    | mk c r =>
      rcases r with pc' | (_ | _)
      · have hlt := casStep_rank hbegin
        refine ⟨_, _, _, rfl, ?_⟩
        simp only [ControlPc.distance]
        omega
      · exact ⟨_, _, _, rfl, by simp [ControlPc.distance]⟩
      · refine ⟨_, _, _, rfl, ?_⟩
        simp only [ControlPc.distance]
        omega
  | beginStopAfterTask pc =>
    refine ⟨true, ?_⟩
    simp only [controlStep, Bool.not_true]
    cases hbegin : g.lifecycle.beginStopStep false pc with
    | mk c r =>
      rcases r with pc' | stopped
      · have hlt := casStep_rank hbegin
        refine ⟨_, _, _, rfl, ?_⟩
        simp only [ControlPc.distance]
        omega
      · refine ⟨_, _, _, rfl, ?_⟩
        simp only [ControlPc.distance]
        omega
  | waitTask driverStopped =>
    cases htake : g.takeTaskStopped with
    | none =>
      refine ⟨false, ?_⟩
      simp only [controlStep, htake]
      refine ⟨_, _, _, rfl, ?_⟩
      simp only [ControlPc.distance]
      omega
    | some g' =>
      refine ⟨true, ?_⟩
      simp only [controlStep, htake]
      refine ⟨_, _, _, rfl, ?_⟩
      simp only [ControlPc.distance]
      omega
  | reconcile next pc =>
    refine ⟨true, ?_⟩
    cases pc with
    | readOwned =>
      refine ⟨_, _, _, rfl, ?_⟩
      split_ifs <;> simp only [ControlPc.distance, ReconcilePc.rank] <;> omega
    | readInstalled =>
      refine ⟨_, _, _, rfl, ?_⟩
      simp only [ControlPc.distance, ReconcilePc.rank]
      omega
    | store target =>
      refine ⟨_, _, _, rfl, ?_⟩
      cases next with
      | startFailed | taskFailed =>
        simp only [afterReconcile, ControlPc.distance]
        omega
      | stop =>
        simp only [afterReconcile]
        split_ifs <;> simp only [ControlPc.distance, Shared.tokens] at htokens ⊢ <;> omega
  | createAvailable | createTaskStopped | install | twaiStart | uninstallAfterStart | createTask
  | twaiStopAfterTask | uninstallAfterTask | twaiStop | uninstall => cases hasks
  | _ =>
    refine ⟨true, _, _, _, rfl, ?_⟩
    simp only [ControlPc.distance, ReconcilePc.rank, CasPc.rank, FrameRing.ClearPc.distance]
    omega

/-- A lifecycle call comes closer to its return whatever it is answered. -/
theorem controlStep_advances {g : Shared} {pc : ControlPc}
    (hheld : g.frames.held ≤ kQueueCapacity) (hidle : pc ≠ .idle) (answer : Bool) :
    ∃ ok g' pc' es, (pc.asks = true → ok = answer) ∧
      controlStep g ok pc = some (g', pc', es) ∧ pc'.distance g' < pc.distance g := by
  by_cases hasks : pc.asks = true
  · exact ⟨answer, (controlStep_answered hasks answer).imp fun g' h =>
      h.imp fun pc' h => h.imp fun es h => ⟨fun _ => rfl, h⟩⟩
  · obtain ⟨ok, g', pc', es, hstep, hlt⟩ :=
      controlStep_unasked (fun _ => hheld) hidle (Bool.eq_false_iff.mpr hasks)
    exact ⟨ok, g', pc', es, fun h => absurd h hasks, hstep, hlt⟩

/-! ## Receive calls -/

/-- Distance of a `receive` call from its return; it waits for one token at most. -/
def ReceivePc.distance : ReceivePc → ℕ
  | idle => 0
  | expired => 1
  | pop pc => 1 + pc.rank
  | woken => 7
  | wait _ => 8
  | enter _ => 9

theorem ReceivePc.distance_le (pc : ReceivePc) : pc.distance ≤ 9 := by
  cases pc with
  | pop pc => cases pc <;> simp [distance, FrameRing.PopPc.rank]
  | _ => simp [distance]

theorem receiveStep_advances {g : Shared} {pc : ReceivePc} (havailable : g.available.isSome = true)
    (hidle : pc ≠ .idle) : ∃ ok g' pc' es, receiveStep g ok pc = some (g', pc', es) ∧
      pc'.distance < pc.distance := by
  cases pc with
  | idle => exact absurd rfl hidle
  | enter timeoutMs | woken =>
    refine ⟨true, ?_⟩
    simp only [receiveStep]
    cases notRunningResult g.lifecycle.state <;>
      exact ⟨_, _, _, rfl, by simp [ReceivePc.distance, FrameRing.PopPc.rank]⟩
  | wait timeoutMs =>
    cases htake : g.takeAvailable with
    | none =>
      refine ⟨false, ?_⟩
      simp only [receiveStep, htake, havailable]
      exact ⟨_, _, _, rfl, by simp [ReceivePc.distance]⟩
    | some g' =>
      refine ⟨true, ?_⟩
      simp only [receiveStep, htake]
      exact ⟨_, _, _, rfl, by simp [ReceivePc.distance]⟩
  | expired => exact ⟨true, _, _, _, rfl, by simp [ReceivePc.distance]⟩
  | pop pc =>
    rcases pc.progress g.frames with ⟨frame, rfl⟩ | ⟨m, pc', es, hpop, hlt⟩
    · cases frame <;> exact ⟨true, _, _, _, rfl, by simp [ReceivePc.distance]⟩
    · refine ⟨true, { g with frames := m }, .pop pc', es.map .ring, ?_, ?_⟩
      · cases pc with
        | done => cases hpop
        | _ => simp [receiveStep, hpop]
      · simpa [ReceivePc.distance] using hlt

end CanBus
end VehicleCanCore

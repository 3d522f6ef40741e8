import VehicleCanCore.Telemetry.WorkerLaw

/-!
# The two budgets of the worker loop

The law is stated over the receive returns, the selected actions and the pauses
of a run, without the counters of the code: what counts for the total budget is
what happened since the last completed pause, for the batch since the last
checkpoint or pause.
-/

namespace VehicleCanCore
namespace Telemetry

open VehicleCanCore.Core Automata

/-! ## What a run does to the budgets -/

inductive BudgetEvent
  | started
  | begun (config : RuntimeConfig) (now : UInt64)
  | returned (frame : Bool)
  | selected (now : UInt64) (action : BudgetAction)
  | paused
  | resumed (now : UInt64)
  deriving DecidableEq

def WorkerPc.budgetEvents (r : Runtime) (input : WorkerInput) : WorkerPc → List BudgetEvent
  | begin => [.begun r.config input.now]
  | receive _ => [.returned input.received.isFrame]
  | afterReceive budget outcome =>
    [.selected input.now (budget.afterReceive r.config outcome.isFrame input.now).2]
  | recordPause _ => [.paused]
  | pause _ => if r.stopRequested then [] else [.resumed input.now]
  | _ => []

def OperationPc.budgetEvents : OperationPc → List BudgetEvent
  | resetDiagnostics => [.started]
  | _ => []

/-- The diagnostics are reset when a run starts, the budgets when its loop begins
and whenever a pause has run to its end. -/
def Runtime.budgetEvents (r : Runtime) : Action → List BudgetEvent
  | .operation _ => r.operation.budgetEvents
  | .worker input => (r.worker.map (WorkerPc.budgetEvents r input)).getD []
  | _ => []

/-- `origin` and `returns` belong to the total budget, `boundary` and `frames` to
the batch; `frame` tells whether the last receive was a frame. -/
structure BudgetHistory where
  config : RuntimeConfig := {}
  origin : UInt64 := 0
  returns : ℕ := 0
  boundary : UInt64 := 0
  frames : ℕ := 0
  frame : Bool := false
  pauses : ℕ := 0
  deriving DecidableEq

namespace BudgetHistory

def next (h : BudgetHistory) : BudgetEvent → BudgetHistory
  | .started => { h with pauses := 0 }
  | .begun config now =>
    { h with config := config, origin := now, returns := 0, boundary := now, frames := 0 }
  | .returned frame =>
    { h with
      returns := h.returns + 1
      frames := if frame then h.frames + 1 else h.frames
      frame := frame }
  | .selected now action =>
    if action = .checkpoint then { h with boundary := now, frames := 0 } else h
  | .paused => { h with pauses := h.pauses + 1 }
  | .resumed now => { h with origin := now, returns := 0, boundary := now, frames := 0 }

def after (h : BudgetHistory) (es : List BudgetEvent) : BudgetHistory := es.foldl next h

@[simp] theorem after_nil (h : BudgetHistory) : h.after [] = h := rfl

@[simp] theorem after_cons (h : BudgetHistory) (e : BudgetEvent) (es : List BudgetEvent) :
    h.after (e :: es) = (h.next e).after es := rfl

theorem after_append (h : BudgetHistory) (es fs : List BudgetEvent) :
    h.after (es ++ fs) = (h.after es).after fs := List.foldl_append

/-- The receive that has just returned uses up the total budget. -/
def PauseDue (h : BudgetHistory) (now : UInt64) : Prop :=
  h.returns = h.config.maxRunnableReceiveCalls.toNat ∨
    (h.origin ≤ now ∧ h.config.maxRunnableTimeUs ≤ now - h.origin)

/-- The receive that has just returned ends the batch. -/
def CheckpointDue (h : BudgetHistory) (now : UInt64) : Prop :=
  h.frame = false ∨ h.config.maxFramesPerBatch.toNat ≤ h.frames ∨
    (h.boundary ≤ now ∧ h.config.maxBatchTimeUs ≤ now - h.boundary)

/-- The total budget comes first. -/
structure Selects (h : BudgetHistory) (now : UInt64) (action : BudgetAction) : Prop where
  pause : action = .pause ↔ h.PauseDue now
  checkpoint : action = .checkpoint ↔ ¬ h.PauseDue now ∧ h.CheckpointDue now

def Within (h : BudgetHistory) : Prop :=
  h.returns ≤ h.config.maxRunnableReceiveCalls.toNat ∧
    h.frames ≤ h.config.maxFramesPerBatch.toNat

/-- Another receive is allowed. -/
def Open (h : BudgetHistory) : Prop :=
  h.returns < h.config.maxRunnableReceiveCalls.toNat ∧
    h.frames < h.config.maxFramesPerBatch.toNat

theorem Open.within {h : BudgetHistory} (hopen : h.Open) : h.Within := ⟨hopen.1.le, hopen.2.le⟩

def Obeys (h : BudgetHistory) : BudgetEvent → Prop
  | .selected now action => h.Selects now action
  | _ => True

/-- Every selection obeys the law and nothing exceeds the budgets. -/
def Obeyed : BudgetHistory → List BudgetEvent → Prop
  | _, [] => True
  | h, e :: es => h.Obeys e ∧ (h.next e).Within ∧ Obeyed (h.next e) es

theorem obeyed_append {h : BudgetHistory} {es fs : List BudgetEvent} :
    h.Obeyed (es ++ fs) ↔ h.Obeyed es ∧ (h.after es).Obeyed fs := by
  induction es generalizing h with
  | nil => simp [Obeyed]
  | cons e es ih => simp [Obeyed, ih, and_assoc]

theorem Obeyed.within {h : BudgetHistory} {es : List BudgetEvent} (hobeyed : h.Obeyed es)
    (hwithin : h.Within) : (h.after es).Within := by
  induction es generalizing h with
  | nil => exact hwithin
  | cons e es ih => exact ih hobeyed.2.2 hobeyed.2.1

end BudgetHistory

/-! ## The counters of the code -/

/-- Between two receives the counters are what the history says. -/
structure WorkBudget.Matches (b : WorkBudget) (h : BudgetHistory) : Prop where
  receiveCalls : b.receiveCalls.toNat = h.returns
  batchFrames : b.batchFrames.toNat = h.frames
  batchStarted : b.batchStarted = h.boundary
  runnableStarted : b.runnableStarted = h.origin

/-- While a received outcome is handled, it is not counted yet. -/
structure WorkBudget.InHand (b : WorkBudget) (h : BudgetHistory) (frame : Bool) : Prop where
  receiveCalls : b.receiveCalls.toNat + 1 = h.returns
  batchFrames : b.batchFrames.toNat + (if frame then 1 else 0) = h.frames
  batchStarted : b.batchStarted = h.boundary
  runnableStarted : b.runnableStarted = h.origin
  frame : h.frame = frame
  within : h.Within

theorem WorkBudget.Matches.returned {b : WorkBudget} {h : BudgetHistory} (hb : b.Matches h)
    (hopen : h.Open) (frame : Bool) : b.InHand (h.next (.returned frame)) frame where
  receiveCalls := by rw [hb.receiveCalls]; rfl
  batchFrames := by
    rw [hb.batchFrames]
    cases frame <;> rfl
  batchStarted := hb.batchStarted
  runnableStarted := hb.runnableStarted
  frame := rfl
  within := by
    refine ⟨hopen.1, ?_⟩
    cases frame
    · exact hopen.2.le
    · exact hopen.2

theorem toNat_succ {n : UInt32} {k limit : ℕ} (h : n.toNat + 1 = k) (hle : k ≤ limit)
    (hlimit : limit < 2 ^ 32) : (n + 1).toNat = k := by
  rw [UInt32.toNat_add, UInt32.toNat_one]
  omega

theorem WorkBudget.InHand.counted {b : WorkBudget} {h : BudgetHistory} {frame : Bool}
    (hb : b.InHand h frame) :
    (if frame then b.batchFrames + 1 else b.batchFrames).toNat = h.frames := by
  have hbatch := hb.batchFrames
  cases frame with
  | false => simpa using hbatch
  | true => exact toNat_succ hbatch hb.within.2 (UInt32.toNat_lt _)

/-- An accepted configuration allows a batch of at least one frame. -/
theorem validConfig_bounds {config : RuntimeConfig} (h : validConfig config = true) :
    0 < config.maxFramesPerBatch.toNat ∧
      config.maxFramesPerBatch.toNat ≤ config.maxRunnableReceiveCalls.toNat := by
  simp only [validConfig, Bool.and_eq_true, bne_iff_ne, decide_eq_true_eq] at h
  have hpositive : config.maxFramesPerBatch ≠ 0 := by tauto
  have hle : config.maxFramesPerBatch ≤ config.maxRunnableReceiveCalls := by tauto
  refine ⟨Nat.pos_of_ne_zero fun hzero => hpositive (UInt32.toNat_inj.mp hzero), ?_⟩
  exact UInt32.le_iff_toNat_le.mp hle

theorem pauseDue_iff {b : WorkBudget} {h : BudgetHistory} {frame : Bool} (hb : b.InHand h frame)
    (now : UInt64) :
    (h.config.maxRunnableReceiveCalls ≤ b.receiveCalls + 1 ||
      elapsed now b.runnableStarted h.config.maxRunnableTimeUs) = true ↔ h.PauseDue now := by
  have hreturns := hb.within.1
  have hcalls := toNat_succ hb.receiveCalls hreturns (UInt32.toNat_lt _)
  rw [Bool.or_eq_true, decide_eq_true_iff, elapsed_iff, hb.runnableStarted,
    UInt32.le_iff_toNat_le, hcalls]
  apply or_congr_left
  constructor
  · exact fun hle => le_antisymm hreturns hle
  · exact fun heq => heq.ge

theorem checkpointDue_iff {b : WorkBudget} {h : BudgetHistory} {frame : Bool}
    (hb : b.InHand h frame) (now : UInt64) :
    (!frame || decide (h.config.maxFramesPerBatch ≤
        if frame then b.batchFrames + 1 else b.batchFrames) ||
      elapsed now b.batchStarted h.config.maxBatchTimeUs) = true ↔ h.CheckpointDue now := by
  unfold BudgetHistory.CheckpointDue
  rw [Bool.or_eq_true, Bool.or_eq_true, Bool.not_eq_true', decide_eq_true_iff, elapsed_iff,
    hb.batchStarted, UInt32.le_iff_toNat_le, hb.counted, hb.frame, or_assoc]

/-- What `after_receive` selects, and what it leaves in the counters unless the
total budget is used up. -/
theorem afterReceive_spec {b : WorkBudget} {h : BudgetHistory} {frame : Bool}
    (hb : b.InHand h frame) (hvalid : validConfig h.config = true) (now : UInt64)
    {b' : WorkBudget} {action : BudgetAction}
    (heq : b.afterReceive h.config frame now = (b', action)) :
    h.Selects now action ∧ (action ≠ .pause →
      b'.Matches (h.next (.selected now action)) ∧ (h.next (.selected now action)).Open) := by
  have hpause := pauseDue_iff hb now
  have hcheckpoint := checkpointDue_iff hb now
  simp only [WorkBudget.afterReceive] at heq
  by_cases hdue : h.PauseDue now
  · rw [if_pos (hpause.mpr hdue)] at heq
    cases heq
    exact ⟨⟨by simp [hdue], by simp [hdue]⟩, by simp⟩
  rw [if_neg (mt hpause.mp hdue)] at heq
  have hcalls := toNat_succ hb.receiveCalls hb.within.1 (UInt32.toNat_lt _)
  have hreturns : h.returns < h.config.maxRunnableReceiveCalls.toNat :=
    lt_of_le_of_ne hb.within.1 fun heq => hdue (.inl heq)
  by_cases hbatch : h.CheckpointDue now
  · rw [if_pos (hcheckpoint.mpr hbatch)] at heq
    cases heq
    refine ⟨⟨by simp [hdue], by simp [hdue, hbatch]⟩, fun _ => ⟨?_, ?_⟩⟩
    · exact ⟨hcalls, rfl, rfl, hb.runnableStarted⟩
    · exact ⟨hreturns, (validConfig_bounds hvalid).1⟩
  · rw [if_neg (mt hcheckpoint.mp hbatch)] at heq
    cases heq
    refine ⟨⟨by simp [hdue], by simp [hbatch]⟩, fun _ => ⟨?_, ?_⟩⟩
    · exact ⟨hcalls, hb.counted, hb.batchStarted, hb.runnableStarted⟩
    · exact ⟨hreturns, not_le.mp fun hfull => hbatch (.inr (.inl hfull))⟩

/-! ## The worker -/

/-- The counters at every program point of the loop, against the history. After a
stop request the selection is not looked at any more. -/
def WorkerPc.Keeps (stop : Bool) (h : BudgetHistory) : WorkerPc → Prop
  | loopHead b | receive b => b.Matches h ∧ h.Open
  | received b status _ => b.InHand h status.isFrame
  | process b _ _ | onFrameProcessed b _ _ _ => b.InHand h true
  | refresh b outcome _ _ | record b outcome _ | onDiagnostics b outcome _ | storeFaulted b outcome
  | requestStop b outcome | completed b outcome | afterReceive b outcome =>
    b.InHand h outcome.isFrame
  | batchDone b action => (stop = true ∨ action ≠ .continue) ∧
      (action = .checkpoint → b.Matches h ∧ h.Open)
  | checkpoint b action => action ≠ .continue ∧ (action = .checkpoint → b.Matches h ∧ h.Open)
  | _ => True

theorem WorkerPc.Keeps.mono {stop stop' : Bool} {h : BudgetHistory} {pc : WorkerPc}
    (hpc : pc.Keeps stop h) (hstop : stop = true → stop' = true) : pc.Keeps stop' h := by
  cases pc with
  | batchDone => exact ⟨hpc.1.imp_left hstop, hpc.2⟩
  | _ => exact hpc

/-- A step that the budgets do not notice. -/
theorem keeps_silent {stop : Bool} {config : RuntimeConfig} {h : BudgetHistory} {pc : WorkerPc}
    (hconfig : h.config = config) (hpc : pc.Keeps stop h) :
    h.Obeyed [] ∧ (h.after []).config = config ∧ pc.Keeps stop (h.after []) :=
  ⟨trivial, hconfig, hpc⟩

theorem workerStep_keeps {r r' : Runtime} {input : WorkerInput} {pc pc' : WorkerPc}
    {es : List Event} {h : BudgetHistory} (hvalid : validConfig r.config = true)
    (hconfig : pc = .begin ∨ h.config = r.config) (hwithin : h.Within)
    (hpc : pc.Keeps r.stopRequested h) (hstep : workerStep r input pc = some (r', pc', es)) :
    h.Obeyed (pc.budgetEvents r input) ∧ (h.after (pc.budgetEvents r input)).config = r.config ∧
      pc'.Keeps r'.stopRequested (h.after (pc.budgetEvents r input)) := by
  have hbounds := validConfig_bounds hvalid
  by_cases hbegin : pc = .begin
  · subst hbegin
    cases hstep
    have hopen : (h.next (.begun r.config input.now)).Open :=
      ⟨hbounds.1.trans_le hbounds.2, hbounds.1⟩
    exact ⟨⟨trivial, hopen.within, trivial⟩, rfl, ⟨rfl, rfl, rfl, rfl⟩, hopen⟩
  replace hconfig := hconfig.resolve_left hbegin
  cases pc with
  | begin => exact absurd rfl hbegin
  | finished => cases hstep
  | exiting =>
    cases hstep
    exact keeps_silent hconfig trivial
  | loopHead budget | beginPause budget =>
    cases hstep
    apply keeps_silent hconfig
    split_ifs
    · trivial
    · exact hpc
  | receive budget =>
    cases hstep
    have hhand := hpc.1.returned hpc.2 input.received.isFrame
    exact ⟨⟨trivial, hhand.within, trivial⟩, hconfig, hhand⟩
  | received budget status time =>
    simp only [workerStep] at hstep
    split_ifs at hstep with hrequested
    · cases hstep
      exact keeps_silent hconfig ⟨.inl hrequested, by simp⟩
    · cases status <;> cases hstep <;> exact keeps_silent hconfig hpc
  | process | onFrameProcessed | storeFaulted | requestStop =>
    cases hstep
    exact keeps_silent hconfig hpc
  | refresh budget outcome time pc =>
    simp only [workerStep, Option.map_eq_some_iff, Prod.exists] at hstep
    obtain ⟨r'', pc'', hrefresh, heq⟩ := hstep
    obtain ⟨_, _, _, _, rfl⟩ := Runtime.refreshStep_eq hrefresh
    cases heq
    exact keeps_silent hconfig (by cases pc'' <;> exact hpc)
  | record budget outcome time =>
    cases hstep
    apply keeps_silent hconfig
    cases outcome <;> exact hpc
  | onDiagnostics budget outcome snapshot =>
    cases hstep
    apply keeps_silent hconfig
    split_ifs <;> exact hpc
  | completed budget outcome =>
    cases hstep
    apply keeps_silent hconfig
    split_ifs with hrequested
    · exact ⟨.inl hrequested, by simp⟩
    · exact hpc
  | afterReceive budget outcome =>
    simp only [workerStep] at hstep
    split at hstep
    · rename_i budget' heq
      cases hstep
      obtain ⟨hselects, hnext⟩ := afterReceive_spec hpc (hconfig ▸ hvalid) input.now (hconfig ▸ heq)
      obtain ⟨hmatches, hopen⟩ := hnext (by simp)
      simp only [WorkerPc.budgetEvents, heq]
      exact ⟨⟨hselects, hopen.within, trivial⟩, hconfig, hmatches, hopen⟩
    · rename_i budget' action hends heq
      cases hstep
      obtain ⟨hselects, hnext⟩ := afterReceive_spec hpc (hconfig ▸ hvalid) input.now (hconfig ▸ heq)
      simp only [WorkerPc.budgetEvents, heq]
      cases action with
      | «continue» => exact absurd rfl hends
      | checkpoint =>
        obtain ⟨hmatches, hopen⟩ := hnext (by simp)
        exact ⟨⟨hselects, hopen.within, trivial⟩, hconfig, .inr (by simp),
          fun _ => ⟨hmatches, hopen⟩⟩
      | pause => exact ⟨⟨hselects, hwithin, trivial⟩, hconfig, .inr (by simp), by simp⟩
  | batchDone budget action =>
    cases hstep
    apply keeps_silent hconfig
    split_ifs with hrequested
    · trivial
    · exact ⟨hpc.1.resolve_left hrequested, hpc.2⟩
  | checkpoint budget action =>
    cases hstep
    apply keeps_silent hconfig
    split_ifs with hpause
    · trivial
    · apply hpc.2
      cases action with
      | «continue» => exact absurd rfl hpc.1
      | checkpoint => rfl
      | pause => exact absurd rfl hpause
  | recordPause budget =>
    cases hstep
    exact ⟨⟨trivial, hwithin, trivial⟩, hconfig, trivial⟩
  | pause budget =>
    cases hstep
    simp only [WorkerPc.budgetEvents]
    split_ifs with hrequested
    · exact keeps_silent hconfig trivial
    · have hopen : (h.next (.resumed input.now)).Open := by
        rw [← hconfig] at hbounds
        exact ⟨hbounds.1.trans_le hbounds.2, hbounds.1⟩
      exact ⟨⟨trivial, hopen.within, trivial⟩, hconfig, ⟨rfl, rfl, rfl, rfl⟩, hopen⟩

theorem recordOutcome_pauses (r : Runtime) (outcome : Outcome) (time : UInt64) :
    (r.recordOutcome outcome time).diagnostics.workBudgetPauses =
      r.diagnostics.workBudgetPauses := by
  cases outcome with
  | frame frame result => cases result <;> rfl
  | fault | notStarted => rfl
  | timeout =>
    simp only [Runtime.recordOutcome]
    split_ifs
    · rfl
    · obtain ⟨transport, heq⟩ := Runtime.updateSilenceDiagnostic_eq
        { r with diagnostics := { r.diagnostics with acquisition := r.acquisitionStatisticsCache } }
        time
      rw [heq]

theorem workerStep_pauses {r r' : Runtime} {input : WorkerInput} {pc pc' : WorkerPc}
    {es : List Event} {h : BudgetHistory}
    (hpauses : r.diagnostics.workBudgetPauses = BitVec.ofNat 64 h.pauses)
    (hstep : workerStep r input pc = some (r', pc', es)) :
    r'.diagnostics.workBudgetPauses =
      BitVec.ofNat 64 (h.after (pc.budgetEvents r input)).pauses := by
  cases pc with
  | recordPause budget =>
    cases hstep
    change r.diagnostics.workBudgetPauses + 1 = BitVec.ofNat 64 (h.pauses + 1)
    rw [hpauses, BitVec.ofNat_add]
    rfl
  | record budget outcome time =>
    cases hstep
    exact (recordOutcome_pauses r outcome time).trans hpauses
  | checkpoint budget action =>
    obtain ⟨transport, heq⟩ := Runtime.updateSilenceDiagnostic_eq r input.now
    simp only [workerStep, heq] at hstep
    cases hstep
    exact hpauses
  | refresh budget outcome time pc =>
    simp only [workerStep, Option.map_eq_some_iff, Prod.exists] at hstep
    obtain ⟨r'', pc'', hrefresh, heq⟩ := hstep
    obtain ⟨_, _, _, _, rfl⟩ := Runtime.refreshStep_eq hrefresh
    cases heq
    exact hpauses
  | received budget received time =>
    simp only [workerStep] at hstep
    split_ifs at hstep
    · cases hstep
      exact hpauses
    · cases received <;> cases hstep <;> exact hpauses
  | afterReceive budget outcome =>
    have hkept : ∀ action, (h.next (.selected input.now action)).pauses = h.pauses := by
      intro action
      cases action <;> rfl
    simp only [workerStep] at hstep
    split at hstep <;> cases hstep <;>
      exact hpauses.trans (congrArg (BitVec.ofNat 64) (hkept _).symm)
  | pause budget =>
    cases hstep
    simp only [WorkerPc.budgetEvents]
    split_ifs <;> exact hpauses
  | finished => cases hstep
  | _ =>
    cases hstep
    exact hpauses

/-! ## Operations -/

theorem budgetEvents_eq_nil {pc : OperationPc} (h : pc ≠ .resetDiagnostics) :
    pc.budgetEvents = [] := by
  cases pc with
  | resetDiagnostics => exact absurd rfl h
  | _ => rfl

theorem obeyed_budgetEvents {h : BudgetHistory} (hwithin : h.Within) (pc : OperationPc) :
    h.Obeyed pc.budgetEvents := by
  cases pc with
  | resetDiagnostics => exact ⟨trivial, hwithin, trivial⟩
  | _ => trivial

/-- Operations create a worker that has not begun, join one, or leave it alone. -/
theorem operationStep_worker {platform : Platform} {r r' : Runtime} {input : OperationInput}
    {pc pc' : OperationPc} {es : List Event} (howned : pc.Owned platform r)
    (hstep : operationStep platform r input pc = some (r', pc', es)) :
    r'.config = r.config ∧ ∀ wpc, r'.worker = some wpc → wpc.isFinished = false →
      wpc = .begin ∨
        (r.worker = some wpc ∧ (r.stopRequested = true → r'.stopRequested = true)) := by
  cases pc with
  | idle | destroyed => cases hstep
  | clearStopRequested =>
    cases hstep
    refine ⟨rfl, fun wpc hwpc hrunning => ?_⟩
    exact absurd howned.2.1 (Runtime.Gone.not_running hwpc hrunning)
  | createWorker =>
    simp only [operationStep] at hstep
    split_ifs at hstep <;> cases hstep
    · refine ⟨rfl, ?_⟩
      rintro _ ⟨⟩ -
      exact .inl rfl
    · exact ⟨rfl, fun wpc hwpc _ => .inr ⟨hwpc, id⟩⟩
  | refresh pc | refreshDiagnostic _ _ _ pc =>
    simp only [operationStep, Option.map_eq_some_iff, Prod.exists] at hstep
    obtain ⟨r'', pc'', hrefresh, heq⟩ := hstep
    obtain ⟨_, _, _, _, rfl⟩ := Runtime.refreshStep_eq hrefresh
    cases heq
    exact ⟨rfl, fun wpc hwpc _ => .inr ⟨hwpc, id⟩⟩
  | awaitStart =>
    simp only [operationStep] at hstep
    split_ifs at hstep <;> cases hstep <;> exact ⟨rfl, fun wpc hwpc _ => .inr ⟨hwpc, id⟩⟩
  | awaitWorker | joinWorker =>
    simp only [operationStep] at hstep
    split_ifs at hstep <;> cases hstep
    all_goals cases platform
    all_goals first
      | exact ⟨rfl, fun wpc hwpc _ => .inr ⟨hwpc, id⟩⟩
      | exact ⟨rfl, by simp [Runtime.join]⟩
  | attemptStop | cleanUp =>
    simp only [operationStep] at hstep
    split at hstep <;> cases hstep <;> exact ⟨rfl, fun wpc hwpc _ => .inr ⟨hwpc, id⟩⟩
  | requestStop =>
    cases hstep
    exact ⟨rfl, fun wpc hwpc _ => .inr ⟨hwpc, fun _ => rfl⟩⟩
  | _ =>
    cases hstep
    exact ⟨rfl, fun wpc hwpc _ => .inr ⟨hwpc, id⟩⟩

theorem operationStep_pauses {platform : Platform} {r r' : Runtime} {input : OperationInput}
    {pc pc' : OperationPc} {es : List Event} {h : BudgetHistory}
    (hpauses : r.diagnostics.workBudgetPauses = BitVec.ofNat 64 h.pauses)
    (hstep : operationStep platform r input pc = some (r', pc', es)) :
    r'.diagnostics.workBudgetPauses = BitVec.ofNat 64 (h.after pc.budgetEvents).pauses := by
  cases pc with
  | idle | destroyed => cases hstep
  | resetDiagnostics =>
    cases hstep
    rfl
  | refresh pc | refreshDiagnostic _ _ _ pc =>
    simp only [operationStep, Option.map_eq_some_iff, Prod.exists] at hstep
    obtain ⟨r'', pc'', hrefresh, heq⟩ := hstep
    obtain ⟨_, _, _, _, rfl⟩ := Runtime.refreshStep_eq hrefresh
    cases heq
    exact hpauses
  | awaitStart | createWorker =>
    simp only [operationStep] at hstep
    split_ifs at hstep <;> cases hstep <;> exact hpauses
  | awaitWorker | joinWorker =>
    simp only [operationStep] at hstep
    split_ifs at hstep <;> cases hstep
    all_goals cases platform <;> exact hpauses
  | attemptStop | cleanUp =>
    simp only [operationStep] at hstep
    split at hstep <;> cases hstep <;> exact hpauses
  | _ =>
    cases hstep
    exact hpauses

/-! ## All threads together -/

/-- A worker that has not begun its loop reads the configuration then. -/
structure Runtime.InBudget (platform : Platform) (h : BudgetHistory) (r : Runtime) : Prop where
  sound : r.Sound platform
  valid : validConfig r.config = true
  within : h.Within
  pauses : r.diagnostics.workBudgetPauses = BitVec.ofNat 64 h.pauses
  worker : ∀ pc, r.worker = some pc → pc.isFinished = false →
    (pc = .begin ∨ h.config = r.config) ∧ pc.Keeps r.stopRequested h

theorem step_inBudget {platform : Platform} {r t : Runtime} {a : Action} {es : List Event}
    {h : BudgetHistory} (hr : r.InBudget platform h) (hstep : step platform r a = some (t, es)) :
    h.Obeyed (r.budgetEvents a) ∧ t.InBudget platform (h.after (r.budgetEvents a)) := by
  have hsound := step_sound hr.sound hstep
  obtain ⟨hsound', hvalid, hwithin, hpauses, hworker⟩ := hr
  cases a with
  | configure config =>
    simp only [step, Runtime.configure] at hstep
    split_ifs at hstep with husable haccepted hbusy <;> cases hstep
    · exact ⟨trivial, hsound, hvalid, hwithin, hpauses, hworker⟩
    · exact ⟨trivial, hsound, hvalid, hwithin, hpauses, hworker⟩
    · simp only [Bool.or_eq_true, decide_eq_true_eq, not_or, not_not, Bool.not_eq_true] at hbusy
      have hidle := hsound'.idle hbusy.1 (Bool.eq_false_iff.mpr husable)
      have hgone := ((hsound'.resting hidle).stopped hbusy.2).2
      refine ⟨trivial, hsound, by simpa using haccepted, hwithin, hpauses, ?_⟩
      intro pc hpc hrunning
      exact absurd hgone (Runtime.Gone.not_running hpc hrunning)
  | start =>
    cases step_cases hstep with
    | start => exact ⟨trivial, hsound, hvalid, hwithin, hpauses, hworker⟩
    | refused => exact ⟨trivial, hsound, hvalid, hwithin, hpauses, hworker⟩
  | stop byWorker =>
    cases step_cases hstep <;> exact ⟨trivial, hsound, hvalid, hwithin, hpauses, hworker⟩
  | destroy =>
    cases step_cases hstep <;> exact ⟨trivial, hsound, hvalid, hwithin, hpauses, hworker⟩
  | operation input =>
    obtain ⟨r', pc, hop, rfl⟩ := step_operation hstep
    obtain ⟨hconfig, hworker'⟩ := operationStep_worker hsound'.owned hop
    have hpauses' := operationStep_pauses hpauses hop
    have hwithin' : (h.after r.operation.budgetEvents).Within := by
      cases r.operation <;> exact hwithin
    refine ⟨obeyed_budgetEvents hwithin _, hsound, hconfig ▸ hvalid, hwithin', hpauses', ?_⟩
    intro wpc hwpc hrunning
    rcases hworker' wpc hwpc hrunning with rfl | ⟨hsame, hstop⟩
    · exact ⟨.inl rfl, trivial⟩
    have hsilent : r.operation.budgetEvents = [] := by
      apply budgetEvents_eq_nil
      intro hresets
      have hgone := hsound'.owned
      rw [hresets] at hgone
      exact Runtime.Gone.not_running hsame hrunning hgone.2.1
    obtain ⟨hbegun, hkeeps⟩ := hworker wpc hsame hrunning
    simp only [Runtime.budgetEvents, hsilent]
    exact ⟨hbegun.imp_right fun heq => heq.trans hconfig.symm, hkeeps.mono hstop⟩
  | worker input =>
    obtain ⟨pc, r', pc', active, hloop, rfl⟩ := step_worker hstep
    have heffect := workerStep_effect hloop
    obtain ⟨hconfig, hpc⟩ := hworker pc active heffect.running
    obtain ⟨hobeyed, hconfig', hpc'⟩ := workerStep_keeps hvalid hconfig hwithin hpc hloop
    have hpauses' := workerStep_pauses hpauses hloop
    simp only [Runtime.budgetEvents, active]
    refine ⟨hobeyed, hsound, ?_, hobeyed.within hwithin, hpauses', ?_⟩
    · simpa only [heffect.config] using hvalid
    · rintro _ ⟨⟩ -
      exact ⟨.inr (hconfig'.trans heffect.config.symm), hpc'⟩
  | diagnostics now =>
    obtain ⟨-, rfl, rfl⟩ := step_diagnostics hstep
    obtain ⟨transport, heq⟩ := Runtime.updateSilenceDiagnostic_eq r now
    rw [heq] at hsound ⊢
    exact ⟨trivial, hsound, hvalid, hwithin, hpauses, hworker⟩

/-- What a schedule has done to the budgets. -/
def budgetTrace (platform : Platform) (as : List Action) : List BudgetEvent :=
  (machine platform).history Runtime.budgetEvents {} as

theorem run_inBudget {platform : Platform} {as : List Action} {r : Runtime} {es : List Event}
    (hrun : (machine platform).run {} as = some (r, es)) :
    ({} : BudgetHistory).Obeyed (budgetTrace platform as) ∧
      r.InBudget platform (({} : BudgetHistory).after (budgetTrace platform as)) := by
  refine (machine platform).run_history (I := fun l r => ({} : BudgetHistory).Obeyed l ∧
    r.InBudget platform (({} : BudgetHistory).after l)) (h := []) ?_ ?_ hrun
  · intro l r a t es hr hstep
    obtain ⟨hobeyed, hbudget⟩ := step_inBudget hr.2 hstep
    rw [BudgetHistory.after_append]
    exact ⟨BudgetHistory.obeyed_append.mpr ⟨hr.1, hobeyed⟩, hbudget⟩
  · refine ⟨trivial, sound_init platform, by decide, ⟨Nat.zero_le _, Nat.zero_le _⟩, rfl, ?_⟩
    simp

/-! ## Stretches of a run -/

namespace BudgetEvent

def isReturn : BudgetEvent → Bool
  | returned _ => true
  | _ => false

def isFrame : BudgetEvent → Bool
  | returned frame => frame
  | _ => false

def renews : BudgetEvent → Bool
  | begun _ _ | resumed _ => true
  | _ => false

def bounds : BudgetEvent → Bool
  | selected _ action => action = .checkpoint
  | e => e.renews

end BudgetEvent

namespace BudgetHistory

theorem next_of_not_renews (h : BudgetHistory) {e : BudgetEvent} (he : e.renews = false) :
    (h.next e).returns = h.returns + (if e.isReturn then 1 else 0) ∧
      (h.next e).origin = h.origin ∧ (h.next e).config = h.config := by
  cases e with
  | begun | resumed => cases he
  | selected now action => cases action <;> exact ⟨rfl, rfl, rfl⟩
  | _ => exact ⟨rfl, rfl, rfl⟩

theorem next_of_not_bounds (h : BudgetHistory) {e : BudgetEvent} (he : e.bounds = false) :
    (h.next e).frames = h.frames + (if e.isFrame then 1 else 0) ∧
      (h.next e).config = h.config := by
  cases e with
  | begun | resumed => cases he
  | selected now action => cases action <;> first | exact ⟨rfl, rfl⟩ | cases he
  | returned frame => cases frame <;> exact ⟨rfl, rfl⟩
  | _ => exact ⟨rfl, rfl⟩

/-- Whatever happens between two completed pauses, checkpoints included, the
returns add up and the origin stays. -/
theorem after_of_not_renews {h : BudgetHistory} {segment : List BudgetEvent}
    (hsegment : ∀ e ∈ segment, e.renews = false) :
    (h.after segment).returns = h.returns + segment.countP BudgetEvent.isReturn ∧
      (h.after segment).origin = h.origin ∧ (h.after segment).config = h.config := by
  induction segment generalizing h with
  | nil => simp
  | cons e segment ih =>
    obtain ⟨hreturns, horigin, hconfig⟩ := h.next_of_not_renews (hsegment e List.mem_cons_self)
    obtain ⟨ihreturns, ihorigin, ihconfig⟩ :=
      ih (h := h.next e) fun e he => hsegment e (List.mem_cons_of_mem _ he)
    refine ⟨?_, ihorigin.trans horigin, ihconfig.trans hconfig⟩
    rw [after_cons, ihreturns, hreturns, List.countP_cons]
    omega

theorem after_of_not_bounds {h : BudgetHistory} {segment : List BudgetEvent}
    (hsegment : ∀ e ∈ segment, e.bounds = false) :
    (h.after segment).frames = h.frames + segment.countP BudgetEvent.isFrame ∧
      (h.after segment).config = h.config := by
  induction segment generalizing h with
  | nil => simp
  | cons e segment ih =>
    obtain ⟨hframes, hconfig⟩ := h.next_of_not_bounds (hsegment e List.mem_cons_self)
    obtain ⟨ihframes, ihconfig⟩ :=
      ih (h := h.next e) fun e he => hsegment e (List.mem_cons_of_mem _ he)
    refine ⟨?_, ihconfig.trans hconfig⟩
    rw [after_cons, ihframes, hframes, List.countP_cons]
    omega

end BudgetHistory

/-- In every run each selection follows the law, between two completed pauses
there are at most `max_runnable_receive_calls` receive returns and the origin of
the runnable time stays, between two boundaries there are at most
`max_frames_per_batch` frames, and the pauses entered are counted. -/
theorem work_budget {platform : Platform} {as : List Action} {r : Runtime} {es : List Event}
    (hrun : (machine platform).run {} as = some (r, es)) :
    (∀ before now action later,
      budgetTrace platform as = before ++ .selected now action :: later →
        (({} : BudgetHistory).after before).Selects now action) ∧
    (∀ before segment later, budgetTrace platform as = before ++ segment ++ later →
      (∀ e ∈ segment, e.renews = false) →
        segment.countP BudgetEvent.isReturn ≤
            (({} : BudgetHistory).after before).config.maxRunnableReceiveCalls.toNat ∧
          (({} : BudgetHistory).after (before ++ segment)).origin =
            (({} : BudgetHistory).after before).origin) ∧
    (∀ before segment later, budgetTrace platform as = before ++ segment ++ later →
      (∀ e ∈ segment, e.bounds = false) →
        segment.countP BudgetEvent.isFrame ≤
          (({} : BudgetHistory).after before).config.maxFramesPerBatch.toNat) ∧
    r.diagnostics.workBudgetPauses =
      BitVec.ofNat 64 (({} : BudgetHistory).after (budgetTrace platform as)).pauses := by
  obtain ⟨hobeyed, hbudget⟩ := run_inBudget hrun
  have hwithin : ({} : BudgetHistory).Within := ⟨Nat.zero_le _, Nat.zero_le _⟩
  refine ⟨?_, ?_, ?_, hbudget.pauses⟩
  · intro before now action later heq
    rw [heq, BudgetHistory.obeyed_append] at hobeyed
    exact hobeyed.2.1
  · intro before segment later heq hsegment
    rw [heq, BudgetHistory.obeyed_append] at hobeyed
    have hbound := (hobeyed.1.within hwithin).1
    rw [BudgetHistory.after_append] at hbound ⊢
    obtain ⟨hreturns, horigin, hconfig⟩ := BudgetHistory.after_of_not_renews
      (h := ({} : BudgetHistory).after before) hsegment
    rw [hreturns, hconfig] at hbound
    exact ⟨by omega, horigin⟩
  · intro before segment later heq hsegment
    rw [heq, BudgetHistory.obeyed_append] at hobeyed
    have hbound := (hobeyed.1.within hwithin).2
    rw [BudgetHistory.after_append] at hbound
    obtain ⟨hframes, hconfig⟩ := BudgetHistory.after_of_not_bounds
      (h := ({} : BudgetHistory).after before) hsegment
    rw [hframes, hconfig] at hbound
    omega

/-- Batches of one frame and a total of two receives: a checkpoint, then a pause. -/
def tightConfig : RuntimeConfig := { maxFramesPerBatch := 1, maxRunnableReceiveCalls := 2 }

def tightSchedule : List Action :=
  let worker (n : ℕ) : List Action := List.replicate n (.worker {})
  let frame : Action := .worker { received := .frame {} }
  [.configure tightConfig, .start] ++ List.replicate 15 (.operation {}) ++ worker 2 ++ [frame] ++
    worker 12 ++ [frame] ++ worker 14

theorem work_budget_coincident : ∃ r es,
    (machine .host).run {} tightSchedule = some (r, es) ∧
      budgetTrace .host tightSchedule = [.started, .begun tightConfig 0, .returned true,
        .selected 0 .checkpoint, .returned true, .selected 0 .pause, .paused, .resumed 0] ∧
      r.diagnostics.workBudgetPauses = 1 := by
  have hobserved : ((machine .host).run {} tightSchedule).isSome = true := by decide +kernel
  have htrace : budgetTrace .host tightSchedule = [.started, .begun tightConfig 0, .returned true,
      .selected 0 .checkpoint, .returned true, .selected 0 .pause, .paused, .resumed 0] := by
    decide +kernel
  obtain ⟨⟨r, es⟩, hrun⟩ := Option.isSome_iff_exists.mp hobserved
  obtain ⟨-, -, -, hpauses⟩ := work_budget hrun
  rw [htrace] at hpauses
  exact ⟨r, es, hrun, htrace, hpauses⟩

end Telemetry
end VehicleCanCore

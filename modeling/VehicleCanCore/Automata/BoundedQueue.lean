import VehicleCanCore.Automata.Acceptor

/-!
# The bounded first-in first-out queue as a trace specification

The abstract state is the list of waiting items. Accepting a trace from the
empty queue is the whole FIFO contract: what has left, followed by what still
waits, is exactly what has entered, in order, and never more than `capacity`
items wait.
-/

namespace VehicleCanCore
namespace Automata

inductive QueueEvent (α : Type*)
  | enqueue (item : α)
  | dequeue (item : α)
  deriving DecidableEq, Repr

namespace QueueEvent

variable {α : Type*}

@[simp] def entered? : QueueEvent α → Option α
  | enqueue a => some a
  | dequeue _ => none

@[simp] def left? : QueueEvent α → Option α
  | enqueue _ => none
  | dequeue a => some a

end QueueEvent

variable {α : Type*} [DecidableEq α]

/-- A full queue takes no item; only the oldest item may leave. -/
def boundedQueue (α : Type*) [DecidableEq α] (capacity : ℕ) :
    Acceptor (List α) (QueueEvent α) where
  next
    | q, .enqueue a => if q.length < capacity then some (q ++ [a]) else none
    | [], .dequeue _ => none
    | b :: q, .dequeue a => if a = b then some q else none

theorem boundedQueue_enqueue {capacity : ℕ} {q : List α} {a : α} (h : q.length < capacity) :
    (boundedQueue α capacity).next q (.enqueue a) = some (q ++ [a]) := if_pos h

theorem boundedQueue_dequeue (capacity : ℕ) (a : α) (q : List α) :
    (boundedQueue α capacity).next (a :: q) (.dequeue a) = some q := if_pos rfl

theorem boundedQueue_next_cases {capacity : ℕ} {q q' : List α} {e : QueueEvent α}
    (h : (boundedQueue α capacity).next q e = some q') :
    (∃ a, e = .enqueue a ∧ q.length < capacity ∧ q' = q ++ [a]) ∨
      ∃ a, e = .dequeue a ∧ q = a :: q' := by
  cases e with
  | enqueue a =>
    left
    by_cases hlt : q.length < capacity
    · rw [boundedQueue_enqueue hlt, Option.some.injEq] at h
      exact ⟨a, rfl, hlt, h.symm⟩
    · simp [boundedQueue, hlt] at h
  | dequeue a =>
    right
    cases q with
    | nil => simp [boundedQueue] at h
    | cons b q =>
      by_cases hab : a = b
      · subst hab
        rw [boundedQueue_dequeue, Option.some.injEq] at h
        exact ⟨a, rfl, by rw [h]⟩
      · simp [boundedQueue, hab] at h

theorem boundedQueue_fifo {capacity : ℕ} {es : List (QueueEvent α)} {q : List α}
    (h : (boundedQueue α capacity).accept [] es = some q) :
    es.filterMap QueueEvent.left? ++ q = es.filterMap QueueEvent.entered? ∧
      q.length ≤ capacity := by
  refine (boundedQueue α capacity).accept_invariant (h := [])
    (I := fun h q => h.filterMap QueueEvent.left? ++ q = h.filterMap QueueEvent.entered? ∧
      q.length ≤ capacity) (fun h q e q' hI hnext => ?_) (by simp) h
  obtain ⟨hfifo, hlen⟩ := hI
  rcases boundedQueue_next_cases hnext with ⟨a, rfl, hlt, rfl⟩ | ⟨a, rfl, rfl⟩
  · exact ⟨by simp [← hfifo], by simp; omega⟩
  · exact ⟨by simpa [List.filterMap_cons] using hfifo, by simp at hlen; omega⟩

/-! ## The queue as a server of calls -/

inductive QueueCall (α : Type*)
  | enqueue (item : α)
  | dequeue
  | count
  | clear
  deriving DecidableEq, Repr

inductive QueueAnswer (α : Type*)
  | enqueued (accepted : Bool)
  | dequeued (item : Option α)
  | counted (n : ℕ)
  | cleared
  deriving DecidableEq, Repr

/-- A full queue refuses an item, an empty one has nothing to give. -/
def queueAnswer {α : Type*} (capacity : ℕ) : List α → QueueCall α → List α × QueueAnswer α
  | q, .enqueue a =>
    if q.length < capacity then (q ++ [a], .enqueued true) else (q, .enqueued false)
  | [], .dequeue => ([], .dequeued none)
  | a :: q, .dequeue => (q, .dequeued (some a))
  | q, .count => (q, .counted q.length)
  | _, .clear => ([], .cleared)

def queueServer (α : Type*) (capacity : ℕ) : Machine (List α) (QueueCall α) (QueueAnswer α) where
  step q call := some ((queueAnswer capacity q call).1, [(queueAnswer capacity q call).2])

section Server

variable {α : Type*} {capacity : ℕ}

theorem queueAnswer_enqueue {q : List α} (h : q.length < capacity) (a : α) :
    queueAnswer capacity q (.enqueue a) = (q ++ [a], .enqueued true) := if_pos h

theorem queueAnswer_enqueue_full {q : List α} (h : capacity ≤ q.length) (a : α) :
    queueAnswer capacity q (.enqueue a) = (q, .enqueued false) := if_neg (by omega)

theorem queueServer_run_enqueue (a : α) {n : ℕ} {q : List α} (h : q.length + n ≤ capacity) :
    ∃ es, (queueServer α capacity).run q (List.replicate n (.enqueue a)) =
      some (q ++ List.replicate n a, es) := by
  induction n generalizing q with
  | zero => exact ⟨[], by simp⟩
  | succ n ih =>
    have hroom : q.length < capacity := by omega
    obtain ⟨es, hrun⟩ := @ih (q ++ [a]) (by simp; omega)
    refine ⟨.enqueued true :: es, ?_⟩
    rw [List.replicate_succ, Machine.run_cons]
    refine ⟨q ++ [a], [.enqueued true], es, ?_, by simpa [List.replicate_succ] using hrun, rfl⟩
    simp [queueServer, queueAnswer_enqueue hroom a]

end Server

end Automata
end VehicleCanCore

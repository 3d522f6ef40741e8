import VehicleCanCore.Automata.Acceptor

/-!
# A queue with a hand, emptied between sessions

Items wait in a bounded queue. Its only consumer takes the oldest one into its
hand and disposes of it before it takes the next one. A flush drops what still
waits and begins a new session, with nothing in hand. Within a session the
disposed items, the one in hand and the waiting ones are the entered items, in
the order in which they entered.
-/

namespace VehicleCanCore
namespace Automata

/-- `how` tells what has become of a disposed item. -/
inductive ConveyorEvent (α δ : Type*)
  | entered (item : α)
  | taken (item : α)
  | disposed (how : δ) (item : α)
  | flushed
  deriving DecidableEq, Repr

structure Conveyor (α : Type*) where
  waiting : List α := []
  hand : Option α := none

namespace ConveyorEvent

variable {α δ : Type*}

def isFlush : ConveyorEvent α δ → Bool
  | flushed => true
  | _ => false

@[simp] def entered? : ConveyorEvent α δ → Option α
  | entered a => some a
  | _ => none

@[simp] def disposed? : ConveyorEvent α δ → Option α
  | disposed _ a => some a
  | _ => none

def disposedAs? [DecidableEq δ] (how : δ) : ConveyorEvent α δ → Option α
  | disposed how' a => if how' = how then some a else none
  | _ => none

/-- What has happened since the last flush. -/
def session (es : List (ConveyorEvent α δ)) : List (ConveyorEvent α δ) :=
  es.rtakeWhile fun e => !e.isFlush

@[simp] theorem session_nil : session ([] : List (ConveyorEvent α δ)) = [] := rfl

theorem session_concat (es : List (ConveyorEvent α δ)) (e : ConveyorEvent α δ) :
    session (es ++ [e]) = if e.isFlush then [] else session es ++ [e] := by
  unfold session
  rw [List.rtakeWhile_concat]
  cases e.isFlush <;> rfl

theorem session_flushed (es : List (ConveyorEvent α δ)) : session (es ++ [flushed]) = [] := by
  rw [session_concat]
  rfl

def enteredItems (es : List (ConveyorEvent α δ)) : List α := es.filterMap entered?

def disposedItems (es : List (ConveyorEvent α δ)) : List α := es.filterMap disposed?

def disposedAs [DecidableEq δ] (how : δ) (es : List (ConveyorEvent α δ)) : List α :=
  es.filterMap (disposedAs? how)

theorem session_kept {es : List (ConveyorEvent α δ)} {e : ConveyorEvent α δ}
    (h : e.isFlush = false) : session (es ++ [e]) = session es ++ [e] := by
  rw [session_concat, h]
  rfl

theorem disposed_kept [DecidableEq δ] {es : List (ConveyorEvent α δ)} {e : ConveyorEvent α δ}
    (hflush : e.isFlush = false) (h : e.disposed? = none) :
    disposedItems (session (es ++ [e])) = disposedItems (session es) ∧
      ∀ how, disposedAs how (session (es ++ [e])) = disposedAs how (session es) := by
  rw [session_kept hflush]
  cases e with
  | disposed => cases h
  | _ => simp [disposedItems, disposedAs, disposedAs?]

theorem disposed_concat [DecidableEq δ] (es : List (ConveyorEvent α δ)) (how : δ) (a : α) :
    disposedItems (session (es ++ [disposed how a])) = disposedItems (session es) ++ [a] ∧
      ∀ how', disposedAs how' (session (es ++ [disposed how a])) =
        disposedAs how' (session es) ++ if how = how' then [a] else [] := by
  rw [session_kept rfl]
  refine ⟨by simp [disposedItems], fun how' => ?_⟩
  by_cases h : how = how' <;> simp [disposedAs, disposedAs?, h]

theorem entered_of_session {es : List (ConveyorEvent α δ)} {a : α}
    (h : a ∈ enteredItems (session es)) : a ∈ enteredItems es := by
  unfold enteredItems at h ⊢
  rw [List.mem_filterMap] at h ⊢
  obtain ⟨e, he, ha⟩ := h
  exact ⟨e, (List.rtakeWhile_suffix _ es).subset he, ha⟩

end ConveyorEvent

open ConveyorEvent

variable {α δ : Type*} [DecidableEq α]

/-- Only the oldest item is taken, only into an empty hand, and only what is in
hand is disposed of. -/
def conveyor (α δ : Type*) [DecidableEq α] (capacity : ℕ) :
    Acceptor (Conveyor α) (ConveyorEvent α δ) where
  next
    | k, .entered a =>
      if k.waiting.length < capacity then some { k with waiting := k.waiting ++ [a] } else none
    | ⟨b :: q, none⟩, .taken a => if a = b then some ⟨q, some a⟩ else none
    | ⟨q, some b⟩, .disposed _ a => if a = b then some ⟨q, none⟩ else none
    | ⟨_, none⟩, .flushed => some {}
    | _, _ => none

theorem conveyor_entered {capacity : ℕ} {q : List α} {hand : Option α} {a : α}
    (h : q.length < capacity) :
    (conveyor α δ capacity).next ⟨q, hand⟩ (.entered a) = some ⟨q ++ [a], hand⟩ := if_pos h

theorem conveyor_taken (capacity : ℕ) (a : α) (q : List α) :
    (conveyor α δ capacity).next ⟨a :: q, none⟩ (.taken a) = some ⟨q, some a⟩ := if_pos rfl

theorem conveyor_disposed (capacity : ℕ) (how : δ) (a : α) (q : List α) :
    (conveyor α δ capacity).next ⟨q, some a⟩ (.disposed how a) = some ⟨q, none⟩ := if_pos rfl

theorem conveyor_flushed (capacity : ℕ) (q : List α) :
    (conveyor α δ capacity).next ⟨q, none⟩ .flushed = some {} := rfl

inductive ConveyorStep (capacity : ℕ) : Conveyor α → ConveyorEvent α δ → Conveyor α → Prop
  | entered {q : List α} {hand : Option α} {a : α} (room : q.length < capacity) :
    ConveyorStep capacity ⟨q, hand⟩ (.entered a) ⟨q ++ [a], hand⟩
  | taken {q : List α} {a : α} : ConveyorStep capacity ⟨a :: q, none⟩ (.taken a) ⟨q, some a⟩
  | disposed {q : List α} {how : δ} {a : α} :
    ConveyorStep capacity ⟨q, some a⟩ (.disposed how a) ⟨q, none⟩
  | flushed {q : List α} : ConveyorStep capacity ⟨q, none⟩ .flushed {}

theorem conveyor_next_cases {capacity : ℕ} {k k' : Conveyor α} {e : ConveyorEvent α δ}
    (h : (conveyor α δ capacity).next k e = some k') : ConveyorStep capacity k e k' := by
  obtain ⟨q, hand⟩ := k
  cases e with
  | entered a =>
    by_cases hroom : q.length < capacity
    · rw [conveyor_entered hroom] at h
      cases h
      exact .entered hroom
    · simp [conveyor, hroom] at h
  | taken a =>
    cases hand with
    | some b => cases q <;> simp [conveyor] at h
    | none =>
      cases q with
      | nil => simp [conveyor] at h
      | cons b q =>
        by_cases hab : a = b
        · subst hab
          rw [conveyor_taken] at h
          cases h
          exact .taken
        · simp [conveyor, hab] at h
  | disposed how a =>
    cases hand with
    | none => simp [conveyor] at h
    | some b =>
      by_cases hab : a = b
      · subst hab
        rw [conveyor_disposed] at h
        cases h
        exact .disposed
      · simp [conveyor, hab] at h
  | flushed =>
    cases hand with
    | some b => simp [conveyor] at h
    | none =>
      cases h
      exact .flushed

/-- Nothing is lost, duplicated, reordered or carried over a flush. -/
theorem conveyor_session {capacity : ℕ} {es : List (ConveyorEvent α δ)} {k : Conveyor α}
    (h : (conveyor α δ capacity).accept {} es = some k) :
    disposedItems (session es) ++ k.hand.toList ++ k.waiting = enteredItems (session es) ∧
      k.waiting.length ≤ capacity := by
  refine (conveyor α δ capacity).accept_invariant (h := [])
    (I := fun h k => disposedItems (session h) ++ k.hand.toList ++ k.waiting =
      enteredItems (session h) ∧ k.waiting.length ≤ capacity)
    (fun h k e k' hI hnext => ?_) (by simp [disposedItems, enteredItems]) h
  obtain ⟨horder, hlen⟩ := hI
  simp only [disposedItems, enteredItems] at horder ⊢
  rw [session_concat]
  cases conveyor_next_cases hnext with
  | entered room =>
    refine ⟨?_, by simp; omega⟩
    simp [isFlush, ← horder]
  | taken =>
    refine ⟨?_, ?_⟩
    · simpa [isFlush, List.filterMap_cons] using horder
    · rw [List.length_cons] at hlen
      exact Nat.le_of_succ_le hlen
  | disposed => exact ⟨by simpa [isFlush, List.filterMap_cons] using horder, hlen⟩
  | flushed => simp [isFlush]

end Automata
end VehicleCanCore

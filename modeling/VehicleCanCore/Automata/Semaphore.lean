import Mathlib

/-!
# Counting semaphores with a bounded count

Giving to a full semaphore fails and changes nothing; taking from an empty one
is not possible. A limit of one is a binary semaphore.
-/

namespace VehicleCanCore
namespace Automata

structure Semaphore (limit : ℕ) where
  count : ℕ
  le_limit : count ≤ limit
  deriving DecidableEq

namespace Semaphore

variable {limit : ℕ}

def empty : Semaphore limit := ⟨0, Nat.zero_le _⟩

def give (s : Semaphore limit) : Semaphore limit × Bool :=
  if h : s.count < limit then (⟨s.count + 1, h⟩, true) else (s, false)

def take (s : Semaphore limit) : Option (Semaphore limit) :=
  if 0 < s.count then some ⟨s.count - 1, Nat.le_trans (Nat.sub_le _ _) s.le_limit⟩ else none

@[simp] theorem count_empty : (empty : Semaphore limit).count = 0 := rfl

theorem give_of_lt {s : Semaphore limit} (h : s.count < limit) :
    s.give.1.count = s.count + 1 ∧ s.give.2 = true := by simp [give, h]

theorem give_of_full {s : Semaphore limit} (h : s.count = limit) : s.give = (s, false) := by
  simp [give, h]

theorem count_give (s : Semaphore limit) : s.give.1.count = min (s.count + 1) limit := by
  have hle := s.le_limit
  by_cases h : s.count < limit
  · rw [(give_of_lt h).1]
    omega
  · rw [give_of_full (by omega)]
    simp only
    omega

/-- After a give some token is there, whether or not it is the one just given. -/
theorem count_give_pos (hlimit : 0 < limit) (s : Semaphore limit) : 0 < s.give.1.count := by
  rw [count_give]
  omega

theorem take_eq_none_iff {s : Semaphore limit} : s.take = none ↔ s.count = 0 := by
  simp [take]

theorem take_eq_some {s t : Semaphore limit} (h : s.take = some t) : s.count = t.count + 1 := by
  unfold take at h
  split_ifs at h with hpos
  cases h
  change s.count = s.count - 1 + 1
  omega

end Semaphore
end Automata
end VehicleCanCore

import Mathlib.Data.Nat.ModEq

/-!
# Counters that wrap, and accumulators that are emptied

A cumulative counter of `w` bits is read now and then. The difference of two
readings, modulo `2 ^ w`, is what happened between them as long as that is less
than the range of the counter. The differences go into an accumulator, which is
emptied now and then; what has been taken out of it and what is still in it make up
the total.
-/

namespace VehicleCanCore
namespace Automata

/-- Unsigned subtraction carries over a wrap of the counter. -/
theorem toNat_ofNat_sub_ofNat {w a b : ℕ} (hle : a ≤ b) (hlt : b < a + 2 ^ w) :
    (BitVec.ofNat w b - BitVec.ofNat w a).toNat = b - a := by
  obtain ⟨n, rfl⟩ := Nat.exists_eq_add_of_le hle
  have hsub : BitVec.ofNat w (a + n) - BitVec.ofNat w a = BitVec.ofNat w n := by
    rw [BitVec.ofNat_add, BitVec.add_comm, BitVec.add_sub_cancel]
  rw [hsub, BitVec.toNat_ofNat, Nat.mod_eq_of_lt (by omega)]
  omega

/-- What has been taken out of an accumulator, and what it holds, make up a total:
modulo its range, and exactly while the total is within the range. -/
structure Accumulates {w : ℕ} (taken : ℕ) (value : BitVec w) (total : ℕ) : Prop where
  modEq : taken + value.toNat ≡ total [MOD 2 ^ w]
  exact : total < 2 ^ w → taken + value.toNat = total

namespace Accumulates

variable {w taken taken' total : ℕ} {value value' : BitVec w}

theorem zero : Accumulates 0 (0 : BitVec w) 0 := by
  constructor
  · simp [Nat.ModEq]
  · simp

theorem add (h : Accumulates taken value total) (n : BitVec w) :
    Accumulates taken (value + n) (total + n.toNat) := by
  constructor
  · have hvalue : (value + n).toNat ≡ value.toNat + n.toNat [MOD 2 ^ w] := by
      rw [BitVec.toNat_add]
      exact Nat.mod_modEq _ _
    calc taken + (value + n).toNat
        ≡ taken + (value.toNat + n.toNat) [MOD 2 ^ w] := hvalue.add_left taken
      _ = taken + value.toNat + n.toNat := by rw [Nat.add_assoc]
      _ ≡ total + n.toNat [MOD 2 ^ w] := h.modEq.add_right _
  · intro hlt
    have hbefore := h.exact (by omega)
    rw [BitVec.toNat_add, Nat.mod_eq_of_lt (by omega)]
    omega

theorem take (h : Accumulates taken value total)
    (hsum : taken' + value'.toNat = taken + value.toNat) : Accumulates taken' value' total := by
  constructor
  · rw [hsum]
    exact h.modEq
  · rw [hsum]
    exact h.exact

end Accumulates

end Automata
end VehicleCanCore

import Mathlib

/-!
# Windows of a circular buffer under wrapping positions

Positions are `w`-bit words that wrap modulo `2 ^ w`; position `i` is stored in
slot `i mod c`. When `c` divides `2 ^ w` a window of at most `c` consecutive
positions occupies distinct slots, also across the wrap, so writing one past
the window keeps it and moving its start by one drops exactly the first item.
-/

namespace VehicleCanCore
namespace Automata
namespace CircularWindow

variable {w c : ℕ} [NeZero c] {α : Type*}

def slot (c : ℕ) [NeZero c] (i : BitVec w) : Fin c := Fin.ofNat c i.toNat

@[simp] theorem slot_val (i : BitVec w) : (slot c i).val = i.toNat % c := rfl

/-- The `n` items stored from position `start` on, oldest first. -/
def window (slots : Fin c → α) (start : BitVec w) (n : ℕ) : List α :=
  (List.range n).map fun k => slots (slot c (start + BitVec.ofNat w k))

@[simp] theorem window_zero (slots : Fin c → α) (start : BitVec w) :
    window slots start 0 = [] := rfl

@[simp] theorem length_window (slots : Fin c → α) (start : BitVec w) (n : ℕ) :
    (window slots start n).length = n := by simp [window]

theorem window_succ (slots : Fin c → α) (start : BitVec w) (n : ℕ) :
    window slots start (n + 1) =
      window slots start n ++ [slots (slot c (start + BitVec.ofNat w n))] := by
  simp [window, List.range_succ]

theorem window_cons (slots : Fin c → α) (start : BitVec w) (n : ℕ) :
    window slots start (n + 1) = slots (slot c start) :: window slots (start + 1#w) n := by
  simp only [window, List.range_succ_eq_map, List.map_cons, List.map_map, BitVec.add_zero,
    List.cons.injEq, true_and]
  apply List.map_congr_left
  intro k _
  simp only [Function.comp_apply, Nat.succ_eq_add_one, BitVec.ofNat_add]
  rw [BitVec.add_assoc, BitVec.add_comm (1#w)]

theorem getElem?_window (slots : Fin c → α) (start : BitVec w) {n k : ℕ} (h : k < n) :
    (window slots start n)[k]? = some (slots (slot c (start + BitVec.ofNat w k))) := by
  simp [window, h]

omit [NeZero c] in
theorem toNat_offset_mod (hdvd : c ∣ 2 ^ w) (start : BitVec w) (k : ℕ) :
    (start + BitVec.ofNat w k).toNat % c = (start.toNat + k) % c := by
  simp [Nat.mod_mod_of_dvd _ hdvd]

/-- Fewer than `c` positions apart, two positions have different slots. -/
theorem slot_offset_ne (hdvd : c ∣ 2 ^ w) (start : BitVec w) {i j : ℕ} (hij : i < j)
    (hj : j < i + c) :
    slot c (start + BitVec.ofNat w i) ≠ slot c (start + BitVec.ofNat w j) := by
  intro heq
  have hval := congrArg Fin.val heq
  rw [slot_val, slot_val, toNat_offset_mod hdvd, toNat_offset_mod hdvd] at hval
  have hdiff : c ∣ start.toNat + j - (start.toNat + i) :=
    Nat.dvd_of_mod_eq_zero (Nat.sub_mod_eq_zero_of_mod_eq hval.symm)
  have := Nat.le_of_dvd (by omega) hdiff
  omega

/-- Writing the slot one past a window that is not full leaves the window as it was. -/
theorem window_update (hdvd : c ∣ 2 ^ w) (slots : Fin c → α) (start : BitVec w) {n : ℕ}
    (h : n < c) (a : α) :
    window (Function.update slots (slot c (start + BitVec.ofNat w n)) a) start n =
      window slots start n := by
  apply List.map_congr_left
  intro k hk
  have hkn : k < n := List.mem_range.mp hk
  exact Function.update_of_ne (slot_offset_ne hdvd start hkn (by omega)) _ _

theorem toNat_offset_sub (start : BitVec w) {n : ℕ} (h : n < 2 ^ w) :
    (start + BitVec.ofNat w n - start).toNat = n := by
  rw [BitVec.add_comm, BitVec.add_sub_cancel, BitVec.toNat_ofNat, Nat.mod_eq_of_lt h]

theorem offset_succ (start : BitVec w) (n : ℕ) :
    start + BitVec.ofNat w n + 1#w = start + BitVec.ofNat w (n + 1) := by
  rw [BitVec.ofNat_add, BitVec.add_assoc]

theorem offset_tail (start : BitVec w) (n : ℕ) :
    start + 1#w + BitVec.ofNat w n = start + BitVec.ofNat w (n + 1) := by
  rw [← offset_succ start n, BitVec.add_assoc, BitVec.add_assoc, BitVec.add_comm (1#w)]

end CircularWindow
end Automata
end VehicleCanCore

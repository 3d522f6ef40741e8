import Mathlib

/-!
# Registers that keep the first write with the newest stamp

Such a register holds the `List.argmax` of the writes made to it: a write
replaces the content only when its stamp is strictly newer. The content is the
first of the writes that carry the greatest stamp, and with distinct stamps the
order of the writes does not matter.
-/

namespace VehicleCanCore
namespace Automata
namespace LastWriter

variable {α τ : Type*} [LinearOrder τ] {stamp : α → τ}

theorem argmax_append_newer {ws : List α} {a : α} (h : ∀ b ∈ ws, stamp b < stamp a) :
    (ws ++ [a]).argmax stamp = some a := by
  rw [List.argmax_concat]
  cases hm : ws.argmax stamp with
  | none => rfl
  | some b => exact if_pos (h b (List.argmax_mem hm))

theorem argmax_append_older {ws : List α} {a b : α} (hb : b ∈ ws) (h : stamp a ≤ stamp b) :
    (ws ++ [a]).argmax stamp = ws.argmax stamp := by
  rw [List.argmax_concat]
  cases hm : ws.argmax stamp with
  | none => simp [List.argmax_eq_none.mp hm] at hb
  | some c => exact if_neg (not_lt.mpr (h.trans (List.le_of_mem_argmax hb hm)))

/-- Every earlier write is strictly older, and no later write is newer. -/
theorem exists_of_mem_argmax {ws : List α} {a : α} (h : a ∈ ws.argmax stamp) :
    ∃ before after, ws = before ++ a :: after ∧
      (∀ b ∈ before, stamp b < stamp a) ∧ ∀ b ∈ after, stamp b ≤ stamp a := by
  induction ws using List.reverseRecOn generalizing a with
  | nil => simp at h
  | append_singleton ws c ih =>
    by_cases hnewer : ∀ b ∈ ws, stamp b < stamp c
    · rw [argmax_append_newer hnewer] at h
      cases h
      exact ⟨ws, [], rfl, hnewer, by simp⟩
    · simp only [not_forall, not_lt, exists_prop] at hnewer
      obtain ⟨b, hb, hle⟩ := hnewer
      rw [argmax_append_older hb hle] at h
      have hca : stamp c ≤ stamp a := hle.trans (List.le_of_mem_argmax hb h)
      obtain ⟨before, after, rfl, hbefore, hafter⟩ := ih h
      refine ⟨before, after ++ [c], by simp, hbefore, ?_⟩
      intro d hd
      rcases List.mem_append.mp hd with hd | hd
      · exact hafter d hd
      · rwa [List.mem_singleton.mp hd]

theorem argmax_perm {ws vs : List α} (hperm : ws.Perm vs) (hd : (ws.map stamp).Nodup) :
    ws.argmax stamp = vs.argmax stamp := by
  cases ha : ws.argmax stamp with
  | none =>
    obtain rfl := List.argmax_eq_none.mp ha
    exact (List.argmax_eq_none.mpr hperm.nil_eq.symm).symm
  | some a =>
    cases hb : vs.argmax stamp with
    | none =>
      obtain rfl := List.argmax_eq_none.mp hb
      obtain rfl := hperm.eq_nil
      cases ha
    | some b =>
      have haw : a ∈ ws := List.argmax_mem ha
      have hbw : b ∈ ws := hperm.mem_iff.mpr (List.argmax_mem hb)
      have hstamp : stamp a = stamp b :=
        le_antisymm (List.le_of_mem_argmax (hperm.mem_iff.mp haw) hb)
          (List.le_of_mem_argmax hbw ha)
      rw [List.inj_on_of_nodup_map hd haw hbw hstamp]

end LastWriter
end Automata
end VehicleCanCore

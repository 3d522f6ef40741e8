import Mathlib

/-!
# Executable transition machines and their runs

A machine performs one named action at a time and reports the visible events
of that action. A schedule is a list of actions; its run is computed, so that
a concrete schedule can be evaluated. The rules below package the inductions
over schedules: what one step preserves, every run preserves.
-/

namespace VehicleCanCore
namespace Automata

/-- An action that is not enabled in a state has no result there. -/
structure Machine (σ α ε : Type*) where
  step : σ → α → Option (σ × List ε)

namespace Machine

variable {σ α ε : Type*} (M : Machine σ α ε)

/-- The state after a schedule, with the events of all its actions in order. -/
def run : σ → List α → Option (σ × List ε)
  | s, [] => some (s, [])
  | s, a :: as =>
    (M.step s a).bind fun p => (run p.1 as).map fun q => (q.1, p.2 ++ q.2)

@[simp] theorem run_nil (s : σ) : M.run s [] = some (s, []) := rfl

theorem run_cons {s u : σ} {a : α} {as : List α} {es : List ε} :
    M.run s (a :: as) = some (u, es) ↔
      ∃ t fs gs, M.step s a = some (t, fs) ∧ M.run t as = some (u, gs) ∧ es = fs ++ gs := by
  simp only [run, Option.bind_eq_some_iff, Option.map_eq_some_iff, Prod.exists, Prod.mk.injEq]
  constructor
  · rintro ⟨t, fs, hstep, u', gs, hrun, rfl, rfl⟩
    exact ⟨t, fs, gs, hstep, hrun, rfl⟩
  · rintro ⟨t, fs, gs, hstep, hrun, rfl⟩
    exact ⟨t, fs, hstep, u, gs, hrun, rfl, rfl⟩

@[simp] theorem run_singleton (s : σ) (a : α) : M.run s [a] = M.step s a := by
  cases h : M.step s a <;> simp [run, h]

theorem run_append {s u : σ} {as bs : List α} {es : List ε} :
    M.run s (as ++ bs) = some (u, es) ↔
      ∃ t fs gs, M.run s as = some (t, fs) ∧ M.run t bs = some (u, gs) ∧ es = fs ++ gs := by
  induction as generalizing s es with
  | nil => simp
  | cons a as ih =>
    rw [List.cons_append, run_cons]
    constructor
    · rintro ⟨t, fs, gs, hstep, hrun, rfl⟩
      obtain ⟨t', fs', gs', has, hbs, rfl⟩ := ih.mp hrun
      exact ⟨t', fs ++ fs', gs', (M.run_cons).mpr ⟨t, fs, fs', hstep, has, rfl⟩, hbs, by simp⟩
    · rintro ⟨t, fs, gs, has, hbs, rfl⟩
      obtain ⟨t', fs', gs', hstep, hrun, rfl⟩ := (M.run_cons).mp has
      exact ⟨t', fs', gs' ++ gs, hstep, ih.mpr ⟨t, gs', gs, hrun, hbs, rfl⟩, by simp⟩

/-- What an observer of a schedule sees, if every action of it is enabled. -/
def trace (s : σ) (as : List α) : Option (List ε) := (M.run s as).map Prod.snd

theorem trace_of_run {s t : σ} {as : List α} {es : List ε} (h : M.run s as = some (t, es)) :
    M.trace s as = some es := by
  rw [trace, h]
  rfl

/-- Two machines that answer corresponding actions alike from related states
show the same traces. -/
theorem trace_eq_map {τ β : Type*} {N : Machine τ β ε} {f : α → β} {R : σ → τ → Prop}
    (hstep : ∀ s k a, R s k → ∃ s' k' es,
      M.step s a = some (s', es) ∧ N.step k (f a) = some (k', es) ∧ R s' k')
    {s : σ} {k : τ} (hR : R s k) (as : List α) : M.trace s as = N.trace k (as.map f) := by
  induction as generalizing s k with
  | nil => rfl
  | cons a as ih =>
    obtain ⟨s', k', es, hs, hk, hR'⟩ := hstep s k a hR
    have hrest := ih hR'
    simp only [trace] at hrest ⊢
    simp only [List.map_cons, run, hs, hk, Option.bind_some, Option.map_map]
    cases hM : M.run s' as <;> cases hN : N.run k' (as.map f) <;> simp_all

/-- States reached by some schedule from a given start. -/
def Reachable (start s : σ) : Prop := ∃ as es, M.run start as = some (s, es)

theorem reachable_refl (s : σ) : M.Reachable s s := ⟨[], [], rfl⟩

variable {M} in
theorem Reachable.run {start s t : σ} {as : List α} {es : List ε}
    (h : M.Reachable start s) (hrun : M.run s as = some (t, es)) : M.Reachable start t := by
  obtain ⟨bs, fs, hs⟩ := h
  exact ⟨bs ++ as, fs ++ es, M.run_append.mpr ⟨s, fs, es, hs, hrun, rfl⟩⟩

/-- Every action of a schedule is taken in a state where `C` allows it. -/
def Along (C : σ → α → Prop) : σ → List α → Prop
  | _, [] => True
  | s, a :: as => C s a ∧ ∀ p, M.step s a = some p → Along C p.1 as

instance decidableAlong {C : σ → α → Prop} [∀ s a, Decidable (C s a)] :
    ∀ s as, Decidable (M.Along C s as)
  | _, [] => isTrue trivial
  | s, a :: as =>
    match h : M.step s a with
    | none => decidable_of_iff (C s a) (by simp [Along, h])
    | some p =>
      have := decidableAlong (C := C) p.1 as
      decidable_of_iff (C s a ∧ M.Along C p.1 as) (by simp [Along, h])

theorem along_true (s : σ) (as : List α) : M.Along (fun _ _ => True) s as := by
  induction as generalizing s with
  | nil => trivial
  | cons a as ih => exact ⟨trivial, fun p _ => ih p.1⟩

variable {M} in
theorem along_of_forall {P : α → Prop} {s : σ} {as : List α} (h : ∀ a ∈ as, P a) :
    M.Along (fun _ a => P a) s as := by
  induction as generalizing s with
  | nil => trivial
  | cons a as ih => exact ⟨h a (by simp), fun p _ => ih fun b hb => h b (by simp [hb])⟩

variable {M} in
theorem Along.and {C D : σ → α → Prop} {s : σ} {as : List α} (hC : M.Along C s as)
    (hD : M.Along D s as) : M.Along (fun s a => C s a ∧ D s a) s as := by
  induction as generalizing s with
  | nil => trivial
  | cons a as ih => exact ⟨⟨hC.1, hD.1⟩, fun p hp => ih (hC.2 p hp) (hD.2 p hp)⟩

/-- Invariant rule with history: `I` may relate the events so far to the state,
and a step only has to preserve it where `C` allows the action. -/
theorem run_invariant_along {C : σ → α → Prop} {I : List ε → σ → Prop}
    (hstep : ∀ h s a t es, I h s → C s a → M.step s a = some (t, es) → I (h ++ es) t)
    {h : List ε} {s t : σ} {as : List α} {es : List ε}
    (hI : I h s) (hC : M.Along C s as) (hrun : M.run s as = some (t, es)) : I (h ++ es) t := by
  induction as generalizing s h es with
  | nil =>
    simp only [run_nil, Option.some.injEq, Prod.mk.injEq] at hrun
    obtain ⟨rfl, rfl⟩ := hrun
    simpa using hI
  | cons a as ih =>
    obtain ⟨u, fs, gs, hu, htail, rfl⟩ := M.run_cons.mp hrun
    have hnext := ih (hstep h s a u fs hI hC.1 hu) (hC.2 (u, fs) hu) htail
    simpa [List.append_assoc] using hnext

/-- The unguarded invariant rule. -/
theorem run_invariant {I : List ε → σ → Prop}
    (hstep : ∀ h s a t es, I h s → M.step s a = some (t, es) → I (h ++ es) t)
    {h : List ε} {s t : σ} {as : List α} {es : List ε}
    (hI : I h s) (hrun : M.run s as = some (t, es)) : I (h ++ es) t :=
  M.run_invariant_along (C := fun _ _ => True)
    (fun h s a t es hI _ => hstep h s a t es hI) hI (M.along_true s as) hrun

/-- The invariant rule where the step may also use that its state was reached. -/
theorem run_induction {start : σ} {P : List ε → σ → Prop} (h0 : P [] start)
    (hstep : ∀ as h s a t es, M.run start as = some (s, h) → P h s →
      M.step s a = some (t, es) → P (h ++ es) t)
    {t : σ} {as : List α} {es : List ε} (hrun : M.run start as = some (t, es)) : P es t := by
  have hboth : (∃ as, M.run start as = some (t, [] ++ es)) ∧ P ([] ++ es) t := by
    refine M.run_invariant (I := fun h s => (∃ as, M.run start as = some (s, h)) ∧ P h s)
      (fun h s a t es hI ht => ?_) ⟨⟨[], rfl⟩, h0⟩ hrun
    obtain ⟨⟨bs, hbs⟩, hP⟩ := hI
    refine ⟨⟨bs ++ [a], ?_⟩, hstep bs h s a t es hbs hP ht⟩
    exact M.run_append.mpr ⟨s, h, es, hbs, by rwa [run_singleton], rfl⟩
  exact hboth.2

theorem run_preserves {I : σ → Prop}
    (hstep : ∀ s a t es, I s → M.step s a = some (t, es) → I t)
    {s t : σ} {as : List α} {es : List ε} (hI : I s) (hrun : M.run s as = some (t, es)) : I t :=
  M.run_invariant (I := fun _ s => I s) (h := []) (fun _ s a t es => hstep s a t es) hI hrun

theorem run_preserves_along {C : σ → α → Prop} {I : σ → Prop}
    (hstep : ∀ s a t es, I s → C s a → M.step s a = some (t, es) → I t)
    {s t : σ} {as : List α} {es : List ε}
    (hI : I s) (hC : M.Along C s as) (hrun : M.run s as = some (t, es)) : I t :=
  M.run_invariant_along (I := fun _ s => I s) (h := [])
    (fun _ s a t es => hstep s a t es) hI hC hrun

/-- What a schedule looks like through a view of its actions, each in the state
in which it is taken. -/
def history {δ : Type*} (view : σ → α → List δ) : σ → List α → List δ
  | _, [] => []
  | s, a :: as => view s a ++ ((M.step s a).elim [] fun p => history view p.1 as)

/-- Invariant rule for a history that the machine does not report itself. -/
theorem run_history_along {δ : Type*} {view : σ → α → List δ} {C : σ → α → Prop}
    {I : List δ → σ → Prop}
    (hstep : ∀ h s a t es, I h s → C s a → M.step s a = some (t, es) → I (h ++ view s a) t)
    {h : List δ} {s t : σ} {as : List α} {es : List ε}
    (hI : I h s) (hC : M.Along C s as) (hrun : M.run s as = some (t, es)) :
    I (h ++ M.history view s as) t := by
  induction as generalizing s h es with
  | nil =>
    simp only [run_nil, Option.some.injEq, Prod.mk.injEq] at hrun
    obtain ⟨rfl, rfl⟩ := hrun
    simpa [history] using hI
  | cons a as ih =>
    obtain ⟨u, fs, gs, hu, htail, rfl⟩ := M.run_cons.mp hrun
    have hnext := ih (hstep h s a u fs hI hC.1 hu) (hC.2 (u, fs) hu) htail
    simpa [history, hu, List.append_assoc] using hnext

theorem run_history {δ : Type*} {view : σ → α → List δ} {I : List δ → σ → Prop}
    (hstep : ∀ h s a t es, I h s → M.step s a = some (t, es) → I (h ++ view s a) t)
    {h : List δ} {s t : σ} {as : List α} {es : List ε}
    (hI : I h s) (hrun : M.run s as = some (t, es)) : I (h ++ M.history view s as) t :=
  M.run_history_along (C := fun _ _ => True)
    (fun h s a t es hI _ => hstep h s a t es hI) hI (M.along_true s as) hrun

/-- A property of single events that every step guarantees from an invariant
holds of every event of every run. -/
theorem run_events {I : σ → Prop} {P : ε → Prop}
    (hstep : ∀ s a t es, I s → M.step s a = some (t, es) → I t ∧ ∀ e ∈ es, P e)
    {s t : σ} {as : List α} {es : List ε}
    (hI : I s) (hrun : M.run s as = some (t, es)) : ∀ e ∈ es, P e := by
  have hall : I t ∧ ∀ e ∈ [] ++ es, P e := by
    refine M.run_invariant (I := fun h s => I s ∧ ∀ e ∈ h, P e) (fun h s a t es hs ht => ?_)
      ⟨hI, by simp⟩ hrun
    obtain ⟨ht, hes⟩ := hstep s a t es hs.1 ht
    refine ⟨ht, fun e he => ?_⟩
    rcases List.mem_append.mp he with he | he
    · exact hs.2 e he
    · exact hes e he
  simpa using hall.2

/-- Variant rule: if every state with `P` is a goal or has an allowed action that
keeps `P` and lowers the rank, some allowed schedule reaches a goal. -/
theorem exists_run_of_rank {β : Type*} [Preorder β] [WellFoundedLT β] {C : σ → α → Prop}
    {P Q : σ → Prop} (rank : σ → β)
    (hstep : ∀ s, P s → Q s ∨ ∃ a t es, C s a ∧ M.step s a = some (t, es) ∧ P t ∧ rank t < rank s)
    {s : σ} (hP : P s) :
    ∃ as t es, M.Along C s as ∧ M.run s as = some (t, es) ∧ P t ∧ Q t := by
  induction hn : rank s using WellFoundedLT.induction generalizing s with
  | ind n ih =>
    rcases hstep s hP with hQ | ⟨a, t, es, hC, ht, hPt, hlt⟩
    · exact ⟨[], s, [], trivial, rfl, hP, hQ⟩
    · obtain ⟨as, u, fs, hAlong, hrun, hgoal⟩ := ih (rank t) (hn ▸ hlt) hPt rfl
      refine ⟨a :: as, u, es ++ fs, ⟨hC, fun p hp => ?_⟩, M.run_cons.mpr ⟨t, es, fs, ht, hrun, rfl⟩,
        hgoal⟩
      rw [ht] at hp
      cases hp
      exact hAlong

theorem reachable_invariant {I : σ → Prop} {start s : σ} (h0 : I start)
    (hstep : ∀ s a t es, I s → M.step s a = some (t, es) → I t)
    (h : M.Reachable start s) : I s := by
  obtain ⟨as, es, hrun⟩ := h
  exact M.run_preserves hstep h0 hrun

end Machine
end Automata
end VehicleCanCore

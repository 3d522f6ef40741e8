import VehicleCanCore.Automata.Machine

/-!
# Trace specifications

An acceptor reads visible events one by one and gets stuck at the first event
that its abstract state forbids. A machine meets such a specification when a
relation between its states and the abstract ones can be maintained by every
step; then the whole event trace of every run is accepted.
-/

namespace VehicleCanCore
namespace Automata

/-- A deterministic partial automaton over events. -/
structure Acceptor (κ ε : Type*) where
  next : κ → ε → Option κ

namespace Acceptor

variable {κ ε : Type*} (A : Acceptor κ ε)

/-- The abstract state after a trace, if no event of it was forbidden. -/
def accept : κ → List ε → Option κ
  | k, [] => some k
  | k, e :: es => (A.next k e).bind fun k' => accept k' es

@[simp] theorem accept_nil (k : κ) : A.accept k [] = some k := rfl

@[simp] theorem accept_singleton (k : κ) (e : ε) : A.accept k [e] = A.next k e := by
  cases h : A.next k e <;> simp [accept, h]

theorem accept_cons (k : κ) (e : ε) (es : List ε) :
    A.accept k (e :: es) = (A.next k e).bind fun k' => A.accept k' es := rfl

theorem accept_append (k : κ) (es fs : List ε) :
    A.accept k (es ++ fs) = (A.accept k es).bind fun k' => A.accept k' fs := by
  induction es generalizing k with
  | nil => rfl
  | cons e es ih =>
    cases h : A.next k e with
    | none => simp [accept, h]
    | some k' => simp [accept, h, ih]

theorem accept_append_eq_some {k k' : κ} {es fs : List ε} :
    A.accept k (es ++ fs) = some k' ↔
      ∃ k₁, A.accept k es = some k₁ ∧ A.accept k₁ fs = some k' := by
  rw [accept_append, Option.bind_eq_some_iff]

theorem accept_cons_eq_some {k k' : κ} {e : ε} {es : List ε} :
    A.accept k (e :: es) = some k' ↔ ∃ k₁, A.next k e = some k₁ ∧ A.accept k₁ es = some k' := by
  rw [accept_cons, Option.bind_eq_some_iff]

/-- An accepted trace maintains every property of abstract states and histories
that single accepted events maintain. -/
theorem accept_invariant {I : List ε → κ → Prop}
    (hnext : ∀ h k e k', I h k → A.next k e = some k' → I (h ++ [e]) k')
    {h es : List ε} {k k' : κ} (hI : I h k) (hes : A.accept k es = some k') :
    I (h ++ es) k' := by
  induction es generalizing k h with
  | nil =>
    obtain rfl : k = k' := by simpa using hes
    simpa using hI
  | cons e es ih =>
    obtain ⟨k₁, hk₁, hrest⟩ := A.accept_cons_eq_some.mp hes
    simpa using ih (hnext h k e k₁ hI hk₁) hrest

/-- A property of single events that holds wherever `I` does, in traces whose
events all satisfy `Q`. -/
theorem accept_events {I : κ → Prop} {P Q : ε → Prop}
    (hnext : ∀ k e k', I k → Q e → A.next k e = some k' → I k' ∧ P e)
    {k k' : κ} {es : List ε} (hI : I k) (hQ : ∀ e ∈ es, Q e) (hes : A.accept k es = some k') :
    ∀ e ∈ es, P e := by
  induction es generalizing k with
  | nil => simp
  | cons e es ih =>
    obtain ⟨k₁, hk₁, hrest⟩ := A.accept_cons_eq_some.mp hes
    obtain ⟨hI₁, hP⟩ := hnext k e k₁ hI (hQ e (by simp)) hk₁
    intro e' he'
    rcases List.mem_cons.mp he' with rfl | he'
    · exact hP
    · exact ih hI₁ (fun e he => hQ e (by simp [he])) hrest e' he'

end Acceptor

namespace Machine

variable {σ α ε κ φ : Type*} (M : Machine σ α ε) (A : Acceptor κ φ) (view : ε → Option φ)

/-- Forward simulation of a machine by a specification: `view` selects the
events the specification speaks about. -/
def Simulates (R : σ → κ → Prop) : Prop :=
  ∀ s a t es k, R s k → M.step s a = some (t, es) →
    ∃ k', A.accept k (es.filterMap view) = some k' ∧ R t k'

variable {M A view}

/-- Simulation of the steps that a guard allows. -/
def SimulatesAlong (M : Machine σ α ε) (A : Acceptor κ φ) (view : ε → Option φ)
    (C : σ → α → Prop) (R : σ → κ → Prop) : Prop :=
  ∀ s a t es k, R s k → C s a → M.step s a = some (t, es) →
    ∃ k', A.accept k (es.filterMap view) = some k' ∧ R t k'

theorem SimulatesAlong.accept_run {C : σ → α → Prop} {R : σ → κ → Prop}
    (hsim : M.SimulatesAlong A view C R) {s t : σ} {k : κ} {as : List α} {es : List ε}
    (hR : R s k) (hC : M.Along C s as) (hrun : M.run s as = some (t, es)) :
    ∃ k', A.accept k (es.filterMap view) = some k' ∧ R t k' := by
  have hall : ∃ k', A.accept k (([] ++ es).filterMap view) = some k' ∧ R t k' := by
    refine M.run_invariant_along
      (I := fun h s => ∃ k', A.accept k (h.filterMap view) = some k' ∧ R s k')
      (fun h s a t es hI hC hstep => ?_) ⟨k, rfl, hR⟩ hC hrun
    obtain ⟨k₁, hk₁, hR₁⟩ := hI
    obtain ⟨k₂, hk₂, hR₂⟩ := hsim s a t es k₁ hR₁ hC hstep
    exact ⟨k₂, by simp [List.filterMap_append, Acceptor.accept_append, hk₁, hk₂], hR₂⟩
  exact hall

theorem Simulates.accept_run {R : σ → κ → Prop} (hsim : M.Simulates A view R)
    {s t : σ} {k : κ} {as : List α} {es : List ε} (hR : R s k)
    (hrun : M.run s as = some (t, es)) :
    ∃ k', A.accept k (es.filterMap view) = some k' ∧ R t k' := by
  have halong : M.SimulatesAlong A view (fun _ _ => True) R := by
    intro s a t es k hR _ hstep
    exact hsim s a t es k hR hstep
  exact halong.accept_run hR (M.along_true s as) hrun

end Machine
end Automata
end VehicleCanCore

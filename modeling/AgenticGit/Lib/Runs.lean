import Mathlib.Data.List.Basic
import Mathlib.Tactic.Common

/- Runs of a partial step function: `step s e` is the state after event `e`,
   `none` when `e` cannot happen in `s`.

   `Throughout` says of a run that every step of it is taken under a condition
   on the state and the event. What such steps keep, a run keeps
   (`run_invariant`, and `run_keeps` where there is no condition); what such a step
   does from a state that has the invariant holds of every step of a run
   (`throughout_of_inv`); a rank that steps lower bounds a run (`run_length_le`). -/
namespace AgenticGit.Runs

universe u v

variable {σ : Type u} {ε : Type v}

/-- The state after the events, when each of them can happen in its turn. -/
def run (step : σ → ε → Option σ) : σ → List ε → Option σ
  | s, [] => some s
  | s, e :: es => (step s e).bind fun t => run step t es

/-- Every event comes in a state where `ok` allows it. -/
def Throughout (step : σ → ε → Option σ) (ok : σ → ε → Prop) : σ → List ε → Prop
  | _, [] => True
  | s, e :: es => ok s e ∧ ∀ t, step s e = some t → Throughout step ok t es

variable {step : σ → ε → Option σ} {ok : σ → ε → Prop} {inv : σ → Prop}

theorem throughout_cons_iff (s : σ) (e : ε) (es : List ε) :
    Throughout step ok s (e :: es) ↔
      ok s e ∧ ∀ t ∈ step s e, Throughout step ok t es := Iff.rfl

instance decidableThroughout [∀ s, DecidablePred (ok s)] :
    ∀ s es, Decidable (Throughout step ok s es)
  | _, [] => isTrue trivial
  | s, e :: es =>
    have : ∀ t, Decidable (Throughout step ok t es) := fun t => decidableThroughout t es
    decidable_of_iff _ (throughout_cons_iff s e es).symm

theorem run_cons {s u : σ} {e : ε} {es : List ε} (h : run step s (e :: es) = some u) :
    ∃ t, step s e = some t ∧ run step t es = some u :=
  Option.bind_eq_some_iff.mp h

theorem throughout_cons {s t : σ} {e : ε} {es : List ε} (he : ok s e) (hstep : step s e = some t)
    (hes : Throughout step ok t es) : Throughout step ok s (e :: es) := by
  refine ⟨he, fun u hu => ?_⟩
  rw [hstep] at hu
  exact Option.some.inj hu ▸ hes

/-- **What every allowed step keeps, an allowed run keeps.** -/
theorem run_invariant (hstep : ∀ s e t, inv s → ok s e → step s e = some t → inv t)
    {s u : σ} {es : List ε} (hs : inv s) (hok : Throughout step ok s es)
    (h : run step s es = some u) : inv u := by
  induction es generalizing s with
  | nil =>
    cases h
    exact hs
  | cons e es ih =>
    obtain ⟨t, ht, h⟩ := run_cons h
    obtain ⟨he, hok⟩ := hok
    exact ih (hstep s e t hs he ht) (hok t ht) h

variable {ok' : σ → ε → Prop}

theorem throughout_of_inv (hstep : ∀ s e t, inv s → ok s e → step s e = some t → inv t)
    (hok' : ∀ s e, inv s → ok s e → ok' s e) {s : σ} {es : List ε} (hs : inv s)
    (hok : Throughout step ok s es) : Throughout step ok' s es := by
  induction es generalizing s with
  | nil => trivial
  | cons e es ih =>
    obtain ⟨he, hok⟩ := hok
    exact ⟨hok' s e hs he, fun t ht => ih (hstep s e t hs he ht) (hok t ht)⟩

/-- What such a step is exactly when it is allowed, every step of a run is exactly when the
run is allowed. -/
theorem throughout_iff_of_inv (hstep : ∀ s e t, inv s → ok s e → step s e = some t → inv t)
    (hiff : ∀ s e t, inv s → step s e = some t → (ok' s e ↔ ok s e)) {s u : σ} {es : List ε}
    (hs : inv s) (h : run step s es = some u) :
    Throughout step ok' s es ↔ Throughout step ok s es := by
  induction es generalizing s with
  | nil => exact Iff.rfl
  | cons e es ih =>
    obtain ⟨t, ht, h⟩ := run_cons h
    simp only [throughout_cons_iff, ht, Option.mem_some_iff, forall_eq', hiff s e t hs ht]
    exact and_congr_right fun he => ih (hstep s e t hs he ht) h

theorem throughout_mono (hok' : ∀ s e, ok s e → ok' s e) {s : σ} {es : List ε}
    (hok : Throughout step ok s es) : Throughout step ok' s es :=
  @throughout_of_inv _ _ _ _ (fun _ => True) _ (fun _ _ _ _ _ _ => trivial)
    (fun s e _ => hok' s e) _ _ trivial hok

theorem throughout_and {only : ε → Prop} {s : σ} {es : List ε} (honly : ∀ e ∈ es, only e)
    (hok : Throughout step ok s es) : Throughout step (fun s e => only e ∧ ok s e) s es := by
  induction es generalizing s with
  | nil => trivial
  | cons e es ih =>
    obtain ⟨he, hok⟩ := hok
    refine ⟨⟨honly e List.mem_cons_self, he⟩, fun t ht => ?_⟩
    exact ih (fun e he => honly e (List.mem_cons_of_mem _ he)) (hok t ht)

theorem run_keeps (hstep : ∀ s e t, inv s → step s e = some t → inv t) {s u : σ} {es : List ε}
    (hs : inv s) (h : run step s es = some u) : inv u := by
  induction es generalizing s with
  | nil =>
    cases h
    exact hs
  | cons e es ih =>
    obtain ⟨t, ht, h⟩ := run_cons h
    exact ih (hstep s e t hs ht) h

theorem run_append {s u : σ} {es fs : List ε} (h : run step s (es ++ fs) = some u) :
    ∃ t, run step s es = some t ∧ run step t fs = some u := by
  induction es generalizing s with
  | nil => exact ⟨s, rfl, h⟩
  | cons e es ih =>
    obtain ⟨t, ht, h⟩ := run_cons h
    obtain ⟨t', ht', h⟩ := ih h
    exact ⟨t', Option.bind_eq_some_iff.mpr ⟨t, ht, ht'⟩, h⟩

theorem throughout_append {s t : σ} {es fs : List ε} (hok : Throughout step ok s (es ++ fs))
    (h : run step s es = some t) :
    Throughout step ok s es ∧ Throughout step ok t fs := by
  induction es generalizing s with
  | nil =>
    cases h
    exact ⟨trivial, hok⟩
  | cons e es ih =>
    obtain ⟨t', ht', h⟩ := run_cons h
    obtain ⟨he, hok⟩ := hok
    refine ⟨⟨he, fun t'' ht'' => ?_⟩, (ih (hok t' ht') h).2⟩
    rw [ht'] at ht''
    cases ht''
    exact (ih (hok t' ht') h).1

/-- **A rank that every step lowers bounds a run.** -/
theorem run_length_le {rank : σ → Nat}
    (hstep : ∀ s e t, inv s → step s e = some t → inv t ∧ rank t < rank s) {s u : σ} {es : List ε}
    (hs : inv s) (h : run step s es = some u) : inv u ∧ es.length + rank u ≤ rank s := by
  induction es generalizing s with
  | nil =>
    cases h
    exact ⟨hs, by rw [List.length_nil]; omega⟩
  | cons e es ih =>
    obtain ⟨t, ht, h⟩ := run_cons h
    obtain ⟨hkept, hlower⟩ := hstep s e t hs ht
    obtain ⟨hend, hrank⟩ := ih hkept h
    rw [List.length_cons]
    exact ⟨hend, by omega⟩

end AgenticGit.Runs

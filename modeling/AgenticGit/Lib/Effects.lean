import Mathlib.Data.List.Basic
import Mathlib.Tactic.Common

/- Pre- and postconditions for programs with a state and exceptions.

   `Triple P m Q E` says of a program `m` that from a state in `P` it either returns with
   `Q` of its value and the state, or throws in a state in `E`. An exception keeps the state
   it was thrown in. `Seen f g m n` says that `n` is `m`, with its states seen through `f` and
   its values through `g`. -/
namespace AgenticGit.Effects

universe u

variable {ε σ α β : Type u} {P : σ → Prop} {E : σ → Prop}

/-- From a state in `P` the program ends in `Q`, or throws in `E`. -/
def Triple (P : σ → Prop) (m : EStateM ε σ α) (Q : α → σ → Prop) (E : σ → Prop) : Prop :=
  ∀ s, P s → match m s with
    | .ok a t => Q a t
    | .error _ t => E t

variable {Q : α → σ → Prop} {m : EStateM ε σ α}

theorem triple_pure {a : α} (h : ∀ s, P s → Q a s) : Triple P (pure a : EStateM ε σ α) Q E := h

theorem triple_throw (e : ε) (h : ∀ s, P s → E s) : Triple P (throw e : EStateM ε σ α) Q E := h

theorem triple_get : Triple P (get : EStateM ε σ σ) (fun a s => a = s ∧ P s) E :=
  fun _ hs => ⟨rfl, hs⟩

theorem triple_set {Q : PUnit → σ → Prop} {t : σ} (h : ∀ s, P s → Q ⟨⟩ t) :
    Triple P (set t : EStateM ε σ PUnit) Q E := h

theorem triple_modify {Q : PUnit → σ → Prop} {f : σ → σ} (h : ∀ s, P s → Q ⟨⟩ (f s)) :
    Triple P (modify f : EStateM ε σ PUnit) Q E := h

theorem triple_bind {f : α → EStateM ε σ β} {R : α → σ → Prop} {Q : β → σ → Prop}
    (hm : Triple P m R E) (hf : ∀ a, Triple (R a) (f a) Q E) : Triple P (m >>= f) Q E := by
  intro s hs
  have hm := hm s hs
  simp only [bind, EStateM.bind]
  cases hrun : m s with
  | ok a t =>
    rw [hrun] at hm
    exact hf a t hm
  | error e t =>
    rw [hrun] at hm
    exact hm

theorem Triple.weaken {Q Q' : α → σ → Prop} {P' : σ → Prop} (h : Triple P m Q E)
    (hP : ∀ s, P' s → P s) (hQ : ∀ a s, Q a s → Q' a s) : Triple P' m Q' E := by
  intro s hs
  have h := h s (hP s hs)
  cases hrun : m s with
  | ok a t =>
    rw [hrun] at h
    exact hQ a t h
  | error e t =>
    rw [hrun] at h
    exact h

theorem Triple.post {Q Q' : α → σ → Prop} (h : Triple P m Q E) (hQ : ∀ a s, Q a s → Q' a s) :
    Triple P m Q' E := h.weaken (fun _ hs => hs) hQ

theorem Triple.pre {P' : σ → Prop} (h : Triple P m Q E) (hP : ∀ s, P' s → P s) : Triple P' m Q E :=
  h.weaken hP fun _ _ hs => hs

theorem Triple.raise {E' : σ → Prop} (h : Triple P m Q E) (hE : ∀ s, E s → E' s) :
    Triple P m Q E' := by
  intro s hs
  have h := h s hs
  cases hrun : m s with
  | ok a t =>
    rw [hrun] at h
    exact h
  | error e t =>
    rw [hrun] at h
    exact hE t h

theorem Triple.ok (h : Triple P m Q E) {s t : σ} {a : α} (hs : P s) (hrun : m s = .ok a t) :
    Q a t := by
  have h := h s hs
  rw [hrun] at h
  exact h

theorem triple_assume {p : Prop} (h : p → Triple P m Q E) : Triple (fun s => p ∧ P s) m Q E :=
  fun s hs => h hs.1 s hs.2

theorem triple_ite {c : Prop} [Decidable c] {m n : EStateM ε σ α} (hm : c → Triple P m Q E)
    (hn : ¬c → Triple P n Q E) : Triple P (if c then m else n) Q E := by
  split
  · exact hm ‹_›
  · exact hn ‹_›

/-- A program that throws nothing out: what it returned, or what it threw. -/
def attempt (m : EStateM ε σ α) : EStateM ε σ (Except ε α) := fun s =>
  match m s with
  | .ok a t => .ok (.ok a) t
  | .error e t => .ok (.error e) t

theorem triple_attempt {F : σ → Prop} (h : Triple P m Q F) :
    Triple P (attempt m) (fun answer s => match answer with
      | .ok a => Q a s
      | .error _ => F s) E := by
  intro s hs
  have h := h s hs
  unfold attempt
  cases hrun : m s with
  | ok a t =>
    rw [hrun] at h
    exact h
  | error e t =>
    rw [hrun] at h
    exact h

/-! ## Programs seen through functions -/

section Seen

variable {τ γ δ : Type u} {f : σ → τ} {g : α → β}

/-- The second program is the first, its states and values seen through functions. -/
def Seen (f : σ → τ) (g : α → β) (m : EStateM ε σ α) (n : EStateM ε τ β) : Prop :=
  ∀ s, n (f s) = match m s with
    | .ok a t => .ok (g a) (f t)
    | .error e t => .error e (f t)

theorem seen_pure {a : α} {b : β} (h : b = g a) :
    Seen f g (pure a : EStateM ε σ α) (pure b) := fun s => by rw [h]; rfl

theorem seen_throw (e : ε) : Seen f g (throw e : EStateM ε σ α) (throw e) := fun _ => rfl

theorem seen_get : Seen f f (get : EStateM ε σ σ) get := fun _ => rfl

theorem seen_set {t : σ} {u : τ} (h : u = f t) :
    Seen f (fun a => a) (set t : EStateM ε σ PUnit) (set u) := fun s => by rw [h]; rfl

theorem seen_modify {k : σ → σ} {l : τ → τ} (h : ∀ s, l (f s) = f (k s)) :
    Seen f (fun a => a) (modify k : EStateM ε σ PUnit) (modify l) := by
  intro s
  change EStateM.Result.ok _ (l (f s)) = _
  rw [h]
  rfl

theorem seen_bind {h : γ → δ} {m : EStateM ε σ α} {n : EStateM ε τ β} {k : α → EStateM ε σ γ}
    {l : β → EStateM ε τ δ} (hm : Seen f g m n) (hk : ∀ a, Seen f h (k a) (l (g a))) :
    Seen f h (m >>= k) (n >>= l) := by
  intro s
  have hm := hm s
  simp only [bind, EStateM.bind]
  cases hrun : m s with
  | ok a t =>
    rw [hrun] at hm
    rw [hm]
    exact hk a t
  | error e t =>
    rw [hrun] at hm
    rw [hm]

theorem seen_ite {c d : Prop} [Decidable c] [Decidable d] {m m' : EStateM ε σ α}
    {n n' : EStateM ε τ β} (hcd : c ↔ d) (hm : Seen f g m n) (hm' : Seen f g m' n') :
    Seen f g (if c then m else m') (if d then n else n') := by
  by_cases hc : c
  · rw [if_pos hc, if_pos (hcd.mp hc)]
    exact hm
  · rw [if_neg hc, if_neg fun hd => hc (hcd.mpr hd)]
    exact hm'

theorem seen_attempt {m : EStateM ε σ α} {n : EStateM ε τ α} (h : Seen f (fun a => a) m n) :
    Seen f (fun a => a) (attempt m) (attempt n) := by
  intro s
  have h := h s
  unfold attempt
  cases hrun : m s with
  | ok a t =>
    rw [hrun] at h
    rw [h]
  | error e t =>
    rw [hrun] at h
    rw [h]

end Seen

end AgenticGit.Effects

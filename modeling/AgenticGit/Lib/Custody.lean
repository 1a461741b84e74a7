import Mathlib.Data.List.Basic
import Mathlib.Tactic.Common

/- Custody: things that are each in one of several places, and pass from place to place.

   Where a thing is, is what `holds` says of it. A step moves some things to a
   place, as `passes` allows, and leaves the others; or it admits a new thing.

   What is proved: moving and admitting keep custody (`Custody.move`,
   `Custody.admit`); what is in a place that nothing leaves is still there
   (`Moves.stays_in`). -/
namespace AgenticGit.Places

universe u v

variable {α : Type u} {κ : Type v}

/-- Every known thing is in one place, and nothing else is in any. -/
structure Custody (known : α → Prop) (holds : α → κ → Prop) : Prop where
  placed : ∀ x, known x → ∃ k, holds x k
  alone : ∀ x k k', holds x k → holds x k' → k = k'
  known : ∀ x k, holds x k → known x

/-- What is moved goes to the target, from where it may; the rest stays where it is. -/
structure Moves (passes : κ → κ → Prop) (holds holds' : α → κ → Prop) (moved : α → Prop)
    (target : κ) : Prop where
  left : ∀ x, moved x → ∃ k, holds x k ∧ passes k target
  now : ∀ x k, holds' x k ↔ (moved x ∧ k = target) ∨ (¬ moved x ∧ holds x k)

variable {known known' : α → Prop} {holds holds' : α → κ → Prop} {passes : κ → κ → Prop}
  {moved : α → Prop} {target : κ}

theorem Custody.existsUnique (h : Custody known holds) {x : α} (hx : known x) :
    ∃! k, holds x k := by
  obtain ⟨k, hk⟩ := h.placed x hx
  exact ⟨k, hk, fun k' hk' => h.alone x k' k hk' hk⟩

/-- **What is moved is in one place**, and so is the rest. -/
theorem Custody.move (h : Custody known holds) (hm : Moves passes holds holds' moved target) :
    Custody known holds' := by
  refine ⟨fun x hx => ?_, fun x k k' hk hk' => ?_, fun x k hk => ?_⟩
  · by_cases hmoved : moved x
    · exact ⟨target, (hm.now x target).2 (.inl ⟨hmoved, rfl⟩)⟩
    · obtain ⟨k, hk⟩ := h.placed x hx
      exact ⟨k, (hm.now x k).2 (.inr ⟨hmoved, hk⟩)⟩
  · rcases (hm.now x k).1 hk with ⟨hmoved, rfl⟩ | ⟨hmoved, hk⟩
    · rcases (hm.now x k').1 hk' with ⟨-, rfl⟩ | ⟨hnot, -⟩
      · rfl
      · exact absurd hmoved hnot
    · rcases (hm.now x k').1 hk' with ⟨hyes, -⟩ | ⟨-, hk'⟩
      · exact absurd hyes hmoved
      · exact h.alone x k k' hk hk'
  · rcases (hm.now x k).1 hk with ⟨hmoved, -⟩ | ⟨-, hk⟩
    · obtain ⟨k', hk', -⟩ := hm.left x hmoved
      exact h.known x k' hk'
    · exact h.known x k hk

/-- **What is new is in the place it is admitted to.** -/
theorem Custody.admit (h : Custody known holds) {new : α} (hnew : ¬ known new)
    (hknown : ∀ x, known' x ↔ known x ∨ x = new)
    (hnow : ∀ x k, holds' x k ↔ (x = new ∧ k = target) ∨ holds x k) : Custody known' holds' := by
  have hnone : ∀ k, ¬ holds new k := fun k hk => hnew (h.known new k hk)
  refine ⟨fun x hx => ?_, fun x k k' hk hk' => ?_, fun x k hk => ?_⟩
  · rcases (hknown x).1 hx with hx | rfl
    · obtain ⟨k, hk⟩ := h.placed x hx
      exact ⟨k, (hnow x k).2 (.inr hk)⟩
    · exact ⟨target, (hnow _ target).2 (.inl ⟨rfl, rfl⟩)⟩
  · rcases (hnow x k).1 hk with ⟨rfl, rfl⟩ | hk
    · rcases (hnow _ k').1 hk' with ⟨-, rfl⟩ | hk'
      · rfl
      · exact absurd hk' (hnone k')
    · rcases (hnow x k').1 hk' with ⟨rfl, -⟩ | hk'
      · exact absurd hk (hnone k)
      · exact h.alone x k k' hk hk'
  · rcases (hnow x k).1 hk with ⟨rfl, -⟩ | hk
    · exact (hknown _).2 (.inr rfl)
    · exact (hknown x).2 (.inl (h.known x k hk))

theorem Custody.moves (h : Custody known holds) {source : κ → Prop}
    (hpasses : ∀ k, source k → passes k target)
    (hleft : ∀ x, moved x → ∃ k, source k ∧ holds x k)
    (hsource : ∀ x k, source k → k ≠ target → (holds' x k ↔ ¬ moved x ∧ holds x k))
    (hother : ∀ x k, ¬ source k → k ≠ target → (holds' x k ↔ holds x k))
    (htarget : ∀ x, holds' x target ↔ moved x ∨ holds x target) :
    Moves passes holds holds' moved target := by
  refine ⟨fun x hx => ?_, fun x k => ?_⟩
  · obtain ⟨k, hk, hx⟩ := hleft x hx
    exact ⟨k, hx, hpasses k hk⟩
  by_cases heq : k = target
  · subst heq
    rw [htarget]
    by_cases hmoved : moved x
    · exact iff_of_true (.inl hmoved) (.inl ⟨hmoved, rfl⟩)
    · exact ⟨fun hx => .inr ⟨hmoved, hx.resolve_left hmoved⟩,
        fun hx => .inr (hx.resolve_left fun hboth => hmoved hboth.1).2⟩
  · have hnot : ¬ (moved x ∧ k = target) := fun hboth => heq hboth.2
    rw [or_iff_right hnot]
    by_cases hk : source k
    · exact hsource x k hk heq
    · rw [hother x k hk heq]
      refine ⟨fun hx => ⟨fun hmoved => ?_, hx⟩, fun hx => hx.2⟩
      obtain ⟨k', hk', hx'⟩ := hleft x hmoved
      exact hk (h.alone x k' k hx' hx ▸ hk')

theorem Moves.stays_in (hm : Moves passes holds holds' moved target) (h : Custody known holds)
    {k : κ} (hlast : ∀ k', passes k k' → k' = k) {x : α} (hk : holds x k) : holds' x k := by
  by_cases hmoved : moved x
  · obtain ⟨k', hk', hpasses⟩ := hm.left x hmoved
    obtain rfl := h.alone x k k' hk hk'
    exact (hm.now x _).2 (.inl ⟨hmoved, (hlast target hpasses).symm⟩)
  · exact (hm.now x k).2 (.inr ⟨hmoved, hk⟩)

end AgenticGit.Places

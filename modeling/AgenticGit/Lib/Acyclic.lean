import Mathlib.Logic.Relation
import Mathlib.Tactic.Common

/- Relations without cycles, and what may be changed about one without making a cycle:
   edges may go (`Acyclic.mono`), a vertex that points nowhere may be pointed at by
   anything (`Acyclic.of_sink`), and a vertex may be made to point at others none of which
   leads back to it (`Acyclic.of_targets`). -/
namespace AgenticGit.Relations
open Relation

universe u

variable {α : Type u} {r s : α → α → Prop}

def Acyclic (r : α → α → Prop) : Prop := ∀ x, ¬TransGen r x x

theorem acyclic_of_empty (h : ∀ x y, ¬r x y) : Acyclic r := by
  intro x hcycle
  obtain ⟨y, hxy, -⟩ := TransGen.head'_iff.mp hcycle
  exact h x y hxy

theorem Acyclic.mono (h : Acyclic r) (hsub : ∀ x y, s x y → r x y) : Acyclic s :=
  fun x hcycle => h x (TransGen.mono hsub x x hcycle)

theorem transGen_of_sink {k : α} (hsink : ∀ y, ¬s k y) (hsub : ∀ x y, y ≠ k → s x y → r x y)
    {x y : α} (hpath : TransGen s x y) (hy : y ≠ k) : TransGen r x y := by
  induction hpath with
  | single hxy => exact .single (hsub _ _ hy hxy)
  | tail _ hyz ih =>
    refine .tail (ih ?_) (hsub _ _ hy hyz)
    rintro rfl
    exact hsink _ hyz

/-- **New edges into a vertex that points nowhere make no cycle.** -/
theorem Acyclic.of_sink {k : α} (h : Acyclic r) (hsink : ∀ y, ¬s k y)
    (hsub : ∀ x y, y ≠ k → s x y → r x y) : Acyclic s := by
  intro x hcycle
  refine h x (transGen_of_sink hsink hsub hcycle ?_)
  rintro rfl
  obtain ⟨y, hky, -⟩ := TransGen.head'_iff.mp hcycle
  exact hsink y hky

theorem transGen_of_targets {k : α} (hsub : ∀ x y, s x y → r x y ∨ x = k)
    (htargets : ∀ y, s k y → ¬ReflTransGen r y k) {x y : α} (hpath : TransGen s x y) :
    TransGen r x y ∨ ∃ z, s k z ∧ ReflTransGen r x k ∧ ReflTransGen r z y := by
  induction hpath with
  | single hxy =>
    rcases hsub _ _ hxy with h | rfl
    · exact .inl (.single h)
    · exact .inr ⟨_, hxy, .refl, .refl⟩
  | tail _ hyz ih =>
    rcases hsub _ _ hyz with h | rfl
    · rcases ih with hold | ⟨z, hz, hto, hfrom⟩
      · exact .inl (hold.tail h)
      · exact .inr ⟨z, hz, hto, hfrom.tail h⟩
    · rcases ih with hold | ⟨z, hz, -, hback⟩
      · exact .inr ⟨_, hyz, hold.to_reflTransGen, .refl⟩
      · exact absurd hback (htargets z hz)

/-- **New edges out of a vertex make no cycle when none of their targets leads back to
it.** -/
theorem Acyclic.of_targets {k : α} (h : Acyclic r) (hsub : ∀ x y, s x y → r x y ∨ x = k)
    (htargets : ∀ y, s k y → ¬ReflTransGen r y k) : Acyclic s := by
  intro x hcycle
  rcases transGen_of_targets hsub htargets hcycle with hold | ⟨z, hz, hto, hfrom⟩
  · exact h x hold
  · exact htargets z hz (hfrom.trans hto)

end AgenticGit.Relations
